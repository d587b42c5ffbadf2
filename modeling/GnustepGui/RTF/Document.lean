import GnustepGui.RTF.Producer

/-!
# Writing an attributed string as RTF

`RTFProducer`: each run is written as the difference from the attributes of the run before it, and the
header, which is made last, has the fonts and colours that have been used. A document is a list of
`Piece`s here, and `render` gives their UTF-16 units.

A dictionary of attributes is a list, and `enumerate` puts it in the order in which it is enumerated. What
NSString makes of a file name are parameters.
-/

namespace GnustepGui.RTF.RTFProducer

inductive Piece where
  /-- A command: a backslash, its name, and the parameter. -/
  | control (word : String) (parameter : Option Int)
  | openBrace
  | closeBrace
  /-- What is appended as it is. -/
  | raw (units : List Nat)
  /-- `_stringWithRTFCharacters:`. -/
  | characters (string : List Nat)
  deriving DecidableEq, Repr

def Piece.render : Piece → List Nat
  | control word parameter => 92 :: (ascii word ++ (parameter.map decimal).getD [])
  | openBrace => [123]
  | closeBrace => [125]
  | raw units => units
  | characters string => stringWithRTFCharacters string

def render (pieces : List Piece) : List Nat :=
  pieces.flatMap Piece.render

/-! ## Attributes -/

structure NSFont where
  fontName : List Nat
  familyName : List Nat
  pointSize : Rat
  italic : Bool
  bold : Bool
  deriving DecidableEq, Repr

inductive NSTextTabType where
  | left | right | center | decimal
  deriving DecidableEq, Repr

inductive NSTextAlignment where
  | left | right | center | justified | natural
  deriving DecidableEq, Repr

inductive NSWritingDirection where
  | natural | leftToRight | rightToLeft
  deriving DecidableEq, Repr

structure NSParagraphStyle where
  tabStops : List (NSTextTabType × Rat)
  baseWritingDirection : NSWritingDirection
  headIndent : Rat
  firstLineHeadIndent : Rat
  tailIndent : Rat
  paragraphSpacing : Rat
  minimumLineHeight : Rat
  maximumLineHeight : Rat
  alignment : NSTextAlignment
  deriving DecidableEq, Repr

structure NSFileWrapper where
  id : Nat
  filename : Option (List Nat)
  preferredFilename : Option (List Nat)
  deriving DecidableEq, Repr

inductive NSTextAttachment where
  | helpLink (id : Nat) (fileName markerName : List Nat)
  | helpMarker (id : Nat) (markerName : List Nat)
  | file (id : Nat) (fileWrapper : Option NSFileWrapper) (width height : Rat)
  deriving DecidableEq, Repr

/-- A link with its `absoluteString`, which escapes backslashes and braces; `id` tells the objects apart. -/
structure Link where
  id : Nat
  absoluteString : List Nat
  escaped : ∀ c ∈ absoluteString, c ≠ 92 ∧ c ≠ 123 ∧ c ≠ 125
  deriving DecidableEq

inductive Attribute (C : Type*) where
  | paragraphStyle (style : NSParagraphStyle)
  | font (font : NSFont)
  | foregroundColor (color : C)
  | backgroundColor (color : C)
  | underlineColor (color : C)
  | underlineStyle (styleMask : Nat)
  | superscript (value : Int)
  | baselineOffset (value : Rat)
  | ligature (value : Int)
  | attachment (attachment : NSTextAttachment)
  | link (link : Link)
  | other (name : String) (value : Nat)
  deriving DecidableEq

inductive AttributeName where
  | paragraphStyle | font | foregroundColor | backgroundColor | underlineColor | underlineStyle | superscript
  | baselineOffset | ligature | attachment | link
  | other (name : String)
  deriving DecidableEq, Repr

variable {C : Type*}

def Attribute.name : Attribute C → AttributeName
  | paragraphStyle _ => .paragraphStyle
  | font _ => .font
  | foregroundColor _ => .foregroundColor
  | backgroundColor _ => .backgroundColor
  | underlineColor _ => .underlineColor
  | underlineStyle _ => .underlineStyle
  | superscript _ => .superscript
  | baselineOffset _ => .baselineOffset
  | ligature _ => .ligature
  | attachment _ => .attachment
  | link _ => .link
  | other name _ => .other name

structure DocumentAttributes where
  paperSize : Option (Rat × Rat)
  leftMargin : Option Rat
  rightMargin : Option Rat
  topMargin : Option Rat
  buttomMargin : Option Rat
  viewSize : Option (Rat × Rat)
  viewZoom : Option Rat
  viewMode : Option Int
  hyphenationFactor : Option Rat
  deriving DecidableEq, Repr

/-- A run of characters with the same attributes. -/
structure AttributedRun (C : Type*) where
  string : List Nat
  attributes : List (Attribute C)
  deriving DecidableEq

/-! ## Numbers -/

/-- `(int)`. -/
def toInt (value : Rat) : Int := value.num.tdiv value.den

/-- `(short)`. -/
def toShort (value : Int) : Int := value.bmod 0x10000

def points2twips (points : Rat) : Int := toInt (points * 20)

/-! ## The producer -/

/-- The fonts and colours in the order of their numbers, the names that file wrappers have been given, and
the number of unnamed files. -/
structure Context (C : Type*) where
  fonts : List (List Nat)
  colors : List C
  filenames : List (Nat × List Nat)
  unnamedAttachmentCounter : Nat

/-- What the producer takes from elsewhere. -/
structure Environment (C : Type*) where
  enumerate : List (Attribute C) → List (Attribute C)
  textColor : C
  textBackgroundColor : C
  components : C → Rat × Rat × Rat
  ASCIIfied : List Nat → List Nat
  lastPathComponent : List Nat → List Nat
  docDict : Option DocumentAttributes

section Producer

variable [DecidableEq C]

def fontToken (context : Context C) (fontName : List Nat) : Piece × Context C :=
  let number := toShort (context.fonts.idxOf fontName)
  (.control "f" number,
    if fontName ∈ context.fonts then context else { context with fonts := context.fonts ++ [fontName] })

def numberForColor (context : Context C) (color : C) : Int × Context C :=
  (context.colors.idxOf color + 1,
    if color ∈ context.colors then context else { context with colors := context.colors ++ [color] })

def tabStop (tab : NSTextTabType × Rat) : List Piece :=
  (match tab.1 with
    | .left => []
    | .right => [.control "tqr" none]
    | .center => [.control "tqc" none]
    | .decimal => [.control "tqdec" none]) ++
  [.control "tx" (toShort (points2twips tab.2))]

/-- A command that is left out for zero twips. -/
def twipsControl (word : String) (twips : Int) : List Piece :=
  if twips ≠ 0 then [.control word (toShort twips)] else []

/-- The right indent is known only with the size and the margins of the paper. -/
def rightIndent (docDict : Option DocumentAttributes) (style : NSParagraphStyle) : List Piece :=
  match docDict with
  | none => []
  | some dict =>
    match dict.paperSize, dict.leftMargin, dict.rightMargin with
    | some paperSize, some leftMargin, some rightMargin =>
      [.control "ri" (toShort (points2twips paperSize.1 - points2twips rightMargin - points2twips leftMargin -
        points2twips style.tailIndent))]
    | _, _, _ => []

def paragraphStyle (docDict : Option DocumentAttributes) (style : NSParagraphStyle) : List Piece :=
  [.control "pard" none] ++ style.tabStops.flatMap tabStop ++
    (if style.baseWritingDirection = .rightToLeft then [.control "rtlpar" none] else []) ++
    twipsControl "li" (points2twips style.headIndent) ++
    twipsControl "fi" (points2twips style.firstLineHeadIndent - points2twips style.headIndent) ++
    rightIndent docDict style ++
    twipsControl "sa" (points2twips style.paragraphSpacing) ++
    twipsControl "sl" (points2twips style.minimumLineHeight) ++
    twipsControl "sl-" (points2twips style.maximumLineHeight) ++
    [match style.alignment with
      | .right => .control "qr" none
      | .center => .control "qc" none
      | .left => .control "ql" none
      | .justified => .control "qj" none
      | .natural => .control "ql" none]

def lastFont (attributesOfLastRun : List (Attribute C)) : Option NSFont :=
  attributesOfLastRun.findSome? fun
    | .font font => some font
    | _ => none

/-- `font:`, what is different in the font of the last run. -/
def fontPieces (context : Context C) (attributesOfLastRun : List (Attribute C)) (font : NSFont) :
    List Piece × Context C :=
  let fontOfLastRun := lastFont attributesOfLastRun
  let sameFamily := fontOfLastRun.map (·.familyName) = some font.familyName
  let token := fontToken context font.familyName
  let italic := fontOfLastRun.any (·.italic)
  let bold := fontOfLastRun.any (·.bold)
  ((if sameFamily then [] else [token.1]) ++
    (if fontOfLastRun.map (·.pointSize) = some font.pointSize then []
      else [.control "fs" (toShort (toInt (font.pointSize * 2)))]) ++
    (if font.italic = italic then [] else [.control "i" (if font.italic then none else some 0)]) ++
    (if font.bold = bold then [] else [.control "b" (if font.bold then none else some 0)]),
    if sameFamily then context else token.2)

/-- What `_removeAttributesString:` appends for an attribute. The value is that of the last run. -/
def removeAttribute : Attribute C → List Piece
  | .paragraphStyle _ => [.control "pard" none, .control "ql" none]
  | .foregroundColor _ => [.control "cf" (some 0)]
  | .backgroundColor _ => [.control "cb" (some 0)]
  | .underlineStyle _ => [.control "ulnone" none]
  | .superscript _ => [.control "nosupersub" none]
  | .baselineOffset value => if 0 ≤ toInt value then [.control "up" (some 0)] else [.control "dn" (some 0)]
  | .ligature _ => [.control "zwnj" none]
  | .link _ => [.closeBrace, .closeBrace]
  | .attachment _ | .font _ | .underlineColor _ | .other _ _ => []

/-- `\\ulw` and the command of the style. -/
def underlinePieces (styleMask : Nat) : List Piece :=
  (if styleMask &&& 0x01 = 0x01 then [.control "ulw" none] else []) ++
    [if styleMask = 0 then .control "ulnone" none
      else if styleMask &&& 0x09 = 0x09 then .control "uldb" none
      else if styleMask &&& 0x02 = 0x02 then
        if styleMask &&& 0x0100 = 0x0100 then .control "ulthd" none
        else if styleMask &&& 0x0200 = 0x0200 then .control "ulthdash" none
        else if styleMask &&& 0x0300 = 0x0300 then .control "ulthdashd" none
        else if styleMask &&& 0x0400 = 0x0400 then .control "ulthdashdd" none
        else .control "ulth" none
      else if styleMask &&& 0x0100 = 0x0100 then .control "uld" none
      else if styleMask &&& 0x0200 = 0x0200 then .control "uldash" none
      else if styleMask &&& 0x0300 = 0x0300 then .control "uldashd" none
      else if styleMask &&& 0x0400 = 0x0400 then .control "uldashdd" none
      else .control "ul" none]

def superscriptPieces (value : Int) : List Piece :=
  if 0 < value then [.control "super" (if 1 < value then some (toShort value) else none)]
  else if value < 0 then [.control "sub" (if value < -1 then some (toShort (-value)) else none)]
  else []

def baselinePieces (value : Rat) : List Piece :=
  let svalue := toInt (value * 2)
  if 0 < svalue then [.control "up" (toShort svalue)]
  else if svalue < 0 then [.control "dn" (toShort (-svalue))]
  else []

/-- The name of the file, which the wrapper keeps. One that has none is given a name. -/
def attachmentFilename (env : Environment C) (context : Context C) (fileWrapper : Option NSFileWrapper) :
    List Nat × Context C :=
  let current := fileWrapper.bind fun wrapper =>
    ((context.filenames.lookup wrapper.id).or wrapper.filename).or wrapper.preferredFilename
  let unnamed := ascii "__unnamed_file_" ++ decimal context.unnamedAttachmentCounter ++ ascii ".tiff"
  let filename := env.ASCIIfied (current.getD unnamed)
  (filename,
    { context with
      unnamedAttachmentCounter := context.unnamedAttachmentCounter + if current.isNone then 1 else 0
      filenames := (fileWrapper.map fun wrapper => (wrapper.id, filename)).toList ++ context.filenames })

def attachmentPieces (env : Environment C) (context : Context C) :
    NSTextAttachment → List Piece × Context C
  | .helpLink _ fileName markerName =>
    ([.openBrace, .openBrace, .control "NeXTHelpLink" none, .raw (ascii " "), .control "markername" none,
      .raw (ascii " ;"), .control "linkFilename" none, .raw (ascii " " ++ (fileName ++ ascii ";")),
      .control "linkMarkername" none, .raw (ascii " " ++ (markerName ++ ascii ";")), .closeBrace], context)
  | .helpMarker _ markerName =>
    ([.openBrace, .openBrace, .control "NeXTHelpMarker" none, .raw (ascii " "), .control "markername" none,
      .raw (ascii " " ++ (markerName ++ ascii ";")), .closeBrace], context)
  | .file _ fileWrapper width height =>
    let (filename, context) := attachmentFilename env context fileWrapper
    ([.openBrace, .openBrace, .control "NeXTGraphic" none,
      .raw (ascii " " ++ (env.lastPathComponent filename ++ ascii " ")),
      .control "width" (toShort (points2twips width)), .raw (ascii " "),
      .control "height" (toShort (points2twips height)), .closeBrace], context)

def linkPieces (link : Link) : List Piece :=
  [.openBrace, .control "field" none, .openBrace, .control "*" none, .control "fldinst" none,
    .raw (ascii " HYPERLINK \"" ++ link.absoluteString ++ ascii "\""), .closeBrace, .openBrace,
    .control "fldrslt" none, .raw (ascii " ")]

/-- What `_addAttributesString:` appends for an attribute. -/
def addAttribute (env : Environment C) (attributesOfLastRun : List (Attribute C)) (context : Context C) :
    Attribute C → List Piece × Context C
  | .paragraphStyle style => (paragraphStyle env.docDict style, context)
  | .font font => fontPieces context attributesOfLastRun font
  | .foregroundColor color =>
    if color = env.textColor then ([], context)
    else
      let (number, context) := numberForColor context color
      ([.control "cf" (toShort number)], context)
  | .backgroundColor color =>
    if color = env.textBackgroundColor then ([], context)
    else
      let (number, context) := numberForColor context color
      ([.control "cb" (toShort number)], context)
  | .underlineColor color =>
    let (number, context) := numberForColor context color
    ([.control "ulc" (toShort number)], context)
  | .underlineStyle styleMask => (underlinePieces styleMask, context)
  | .superscript value => (superscriptPieces value, context)
  | .baselineOffset value => (baselinePieces value, context)
  | .ligature _ => ([.control "zwj" none], context)
  | .attachment attachment => attachmentPieces env context attachment
  | .link link => (linkPieces link, context)
  | .other _ _ => ([], context)

/-- `_addAttributesString:`. -/
def addAttributes (env : Environment C) (attributesOfLastRun : List (Attribute C)) :
    Context C → List (Attribute C) → List Piece × Context C
  | context, [] => ([], context)
  | context, attr :: attributes =>
    let (pieces, context) := addAttribute env attributesOfLastRun context attr
    let (rest, context) := addAttributes env attributesOfLastRun context attributes
    (pieces ++ rest, context)

/-- The attributes of the last run that the run has not, or not with this value. -/
def attributesToRemove (env : Environment C) (attributesOfLastRun attributes : List (Attribute C)) :
    List (Attribute C) :=
  env.enumerate (attributesOfLastRun.filter (· ∉ attributes))

/-- The attributes of the run that the last run has not, or not with this value. -/
def attributesToAdd (env : Environment C) (attributesOfLastRun attributes : List (Attribute C)) :
    List (Attribute C) :=
  env.enumerate (attributes.filter (· ∉ attributesOfLastRun))

/-- A blank, unless the commands end with a brace or a blank. -/
def delimiter (pieces : List Piece) : List Piece :=
  match (render pieces).getLast? with
  | none => []
  | some c => if c ≠ 125 ∧ c ≠ 32 then [.raw (ascii " ")] else []

/-- `_runStringForString:attributes:`. -/
def runString (env : Environment C) (attributesOfLastRun : List (Attribute C)) (context : Context C)
    (run : AttributedRun C) : List Piece × Context C :=
  let removed := (attributesToRemove env attributesOfLastRun run.attributes).flatMap removeAttribute
  let (added, context) :=
    addAttributes env attributesOfLastRun context (attributesToAdd env attributesOfLastRun run.attributes)
  (removed ++ added ++ delimiter (removed ++ added) ++ [.characters run.string], context)

def bodyString (env : Environment C) :
    List (Attribute C) → Context C → List (AttributedRun C) → List Piece × Context C
  | _, context, [] => ([], context)
  | attributesOfLastRun, context, run :: runs =>
    let (pieces, context) := runString env attributesOfLastRun context run
    let (rest, context) := bodyString env run.attributes context runs
    (pieces ++ rest, context)

/-! ## The header -/

/-- The family of a font, by its name. -/
def fontFamily (fontName : List Nat) : String :=
  if fontName = ascii "Symbol" then "tech"
  else if fontName = ascii "Helvetica" then "swiss"
  else if fontName = ascii "Courier" then "modern"
  else if fontName = ascii "Times" then "roman"
  else "nil"

/-- `compare:`, by the units. -/
def precedes : List Nat → List Nat → Bool
  | [], _ => true
  | _ :: _, [] => false
  | a :: s, b :: t => if a < b then true else if b < a then false else precedes s t

def fontTable (context : Context C) : List Piece :=
  if context.fonts = [] then []
  else
    [.openBrace, .control "fonttbl" none] ++
      (context.fonts.mergeSort precedes).flatMap (fun fontName =>
        [(fontToken context fontName).1, .control ("f" ++ fontFamily fontName) none,
          .raw (ascii " " ++ (fontName ++ ascii ";"))]) ++
      [.closeBrace, .raw (ascii "\n")]

def colorTable (env : Environment C) (context : Context C) : List Piece :=
  if context.colors = [] then []
  else
    [.openBrace, .control "colortbl" none, .raw (ascii ";")] ++
      context.colors.flatMap (fun color =>
        let (red, green, blue) := env.components color
        [.control "red" (toShort (toInt (red * 255))), .control "green" (toShort (toInt (green * 255))),
          .control "blue" (toShort (toInt (blue * 255))), .raw (ascii ";")]) ++
      [.closeBrace, .raw (ascii "\n")]

def documentAttributes (docDict : Option DocumentAttributes) : List Piece :=
  match docDict with
  | none => []
  | some dict =>
    let twips (word : String) (value : Option Rat) : List Piece :=
      (value.map fun points => Piece.control word (toShort (points2twips points))).toList
    twips "paperw" (dict.paperSize.map Prod.fst) ++ twips "paperh" (dict.paperSize.map Prod.snd) ++
      twips "margl" dict.leftMargin ++ twips "margr" dict.rightMargin ++ twips "margt" dict.topMargin ++
      twips "margb" dict.buttomMargin ++ twips "vieww" (dict.viewSize.map Prod.fst) ++
      twips "viewh" (dict.viewSize.map Prod.snd) ++
      (dict.viewZoom.map fun factor => Piece.control "viewscale" (toShort (toInt factor))).toList ++
      (dict.viewMode.map fun mode => Piece.control "viewkind" (toShort mode)).toList ++
      (dict.hyphenationFactor.map fun factor =>
        [Piece.control "hyphauto" (some 1),
          .control "hyphfactor" (some (toShort (points2twips factor) * 5))]).getD []

def headerString (env : Environment C) (context : Context C) : List Piece :=
  [.openBrace, .control "rtf" (some 1), .control "ansi" none, .control "ansicpg" (some 1252),
    .control "cocoartf" (some 102)] ++
    fontTable context ++ colorTable env context ++ documentAttributes env.docDict

def trailerString : List Piece :=
  [.closeBrace]

/-- `_RTFDStringFromAttributedString:documentAttributes:inlineGraphics:`. The body is made first. -/
def RTFDString (env : Environment C) (runs : List (AttributedRun C)) : List Piece :=
  let (body, context) := bodyString env [] ⟨[], [], [], 0⟩ runs
  headerString env context ++ body ++ trailerString

end Producer

end GnustepGui.RTF.RTFProducer
