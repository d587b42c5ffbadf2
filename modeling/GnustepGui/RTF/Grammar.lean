import GnustepGui.Library.ShiftReduce
import GnustepGui.RTF.Attributes

/-!
# The grammar of RTF

The rules of `rtfGrammar.y` with their actions on the consumer. An action in the middle of a rule is a
rule of its own with nothing on its right-hand side, whose symbol stays on the stack: that of
`GSRTFopenBlock` is `opened`. The group within a field instruction, which an action in the middle closes,
is a symbol of its own here, and so is each list of alternative tokens. Actions that only report, or take
the position of the text, are left out.
-/

namespace GnustepGui.RTF

inductive Terminal where
  | openBrace | closeBrace | start
  | ansi | mac | pc | pca | ansicpg (parameter : Int)
  | ignore | info | stylesheet | footnote | header | footer | pict
  | field | fldinst | fldalt | fldrslt | flddirty | fldedit | fldlock | fldpriv
  | text (bytes : List Nat)
  | statement (s : Statement)
  | NeXTGraphic | NeXTGraphicWidth | NeXTGraphicHeight
  | NeXTHelpLink | NeXTHelpMarker | NeXTmarkername | NeXTlinkFilename | NeXTlinkMarkername
  | fontListStart
  | familyNil | familyRoman | familySwiss | familyModern | familyScript | familyDecor | familyTech | familyBiDi
  | fcharset | fprq | cpg | fttruetype
  | colortable | red (parameter : Int) | green (parameter : Int) | blue (parameter : Int)
  deriving DecidableEq, Repr

inductive NonTerminal where
  | rtfFile | rtfCharset | rtfIngredients | rtfBlock
  | rtfField | rtfFieldMod | rtfIgnore | rtfFieldinst | rtfFieldinstBlock | rtfFieldalt | rtfFieldrslt
  | rtfStatementList | rtfStatement
  | rtfNeXTstuff | rtfNeXTGraphic | rtfNeXTHelpLink | rtfNeXTHelpMarker
  | rtfFontList | rtfFonts | rtfFontStatement | rtfFontAttrs | rtfFontFamily
  | rtfColorDef | rtfColors | rtfColorStatement
  deriving DecidableEq, Repr

inductive Symbol where
  | t (terminal : Terminal)
  | n (nonTerminal : NonTerminal)
  /-- `GSRTFopenBlock` has been called. -/
  | opened (ignore : Bool)
  | error
  deriving DecidableEq, Repr

open Terminal NonTerminal GnustepGui.RTF.Symbol

/-- What makes a block an ignored one. -/
def ignoredStarts : List Terminal :=
  [.ignore, .info, .stylesheet, .footnote, .header, .footer, .pict]

def familyTokens : List Terminal :=
  [familyNil, familyRoman, familySwiss, familyModern, familyScript, familyDecor, familyTech]

def charsetTokens : List Terminal := [ansi, mac, pc, pca]

def fieldModTokens : List Terminal := [flddirty, fldedit, fldlock, fldpriv]

def fontAttrTokens : List Terminal := [fcharset, fprq, cpg, fttruetype]

/-- What `rtfIngredients` may be followed by and still is `rtfIngredients`, apart from a text. -/
def ingredientSymbols : List Symbol :=
  [n rtfCharset, n rtfFontList, n rtfColorDef, n rtfStatement, n rtfBlock, error]

/-- The rules whose action leaves the attributes and the ignore count alone. -/
inductive Plain : List Symbol → NonTerminal → Prop
  | rtfFile : Plain [t openBrace, t start, n rtfIngredients, t closeBrace] rtfFile
  | charset {token : Terminal} (h : token ∈ charsetTokens) : Plain [t token] rtfCharset
  | ansicpg (parameter : Int) : Plain [n rtfCharset, t (ansicpg parameter)] rtfCharset
  | noIngredients : Plain [] rtfIngredients
  | ingredient {s : Symbol} (h : s ∈ ingredientSymbols) : Plain [n rtfIngredients, s] rtfIngredients
  | text (bytes : List Nat) : Plain [n rtfIngredients, t (.text bytes)] rtfIngredients
  | blockError : Plain [t openBrace, error, t closeBrace] rtfBlock
  | rtfField : Plain [n rtfFieldMod, n rtfFieldinst, n rtfFieldrslt] rtfField
  | fieldError : Plain [error] rtfField
  | noFieldMod : Plain [] rtfFieldMod
  | fieldMod {token : Terminal} (h : token ∈ fieldModTokens) : Plain [n rtfFieldMod, t token] rtfFieldMod
  | noIgnore : Plain [] rtfIgnore
  | rtfIgnore : Plain [t .ignore] rtfIgnore
  | fieldinst (bytes : List Nat) :
      Plain [t openBrace, n .rtfIgnore, t fldinst, t (.text bytes), n rtfFieldalt, t closeBrace] rtfFieldinst
  | fieldinstOfBlock :
      Plain [t openBrace, n .rtfIgnore, t fldinst, n rtfFieldinstBlock, t closeBrace] rtfFieldinst
  | fieldinstError : Plain [t openBrace, error, t closeBrace] rtfFieldinst
  | noFieldalt : Plain [] rtfFieldalt
  | rtfFieldalt : Plain [t fldalt] rtfFieldalt
  | fieldrslt :
      Plain [t openBrace, n .rtfIgnore, t fldrslt, n rtfIngredients, t closeBrace] rtfFieldrslt
  | fieldrsltError : Plain [t openBrace, error, t closeBrace] rtfFieldrslt
  | noStatements : Plain [] rtfStatementList
  | statements : Plain [n rtfStatementList, n rtfStatement] rtfStatementList
  | statementsBlock : Plain [n rtfStatementList, n rtfBlock] rtfStatementList
  | noNeXTstuff : Plain [] rtfNeXTstuff
  | rtfNeXTGraphic : Plain [n .rtfNeXTGraphic] rtfNeXTstuff
  | rtfNeXTHelpLink : Plain [n .rtfNeXTHelpLink] rtfNeXTstuff
  | rtfNeXTHelpMarker : Plain [n .rtfNeXTHelpMarker] rtfNeXTstuff
  | rtfFontList : Plain [t openBrace, t fontListStart, n rtfFonts, t closeBrace] rtfFontList
  | noFonts : Plain [] rtfFonts
  | fonts : Plain [n rtfFonts, n rtfFontStatement] rtfFonts
  | fontsGroup : Plain [n rtfFonts, t openBrace, n rtfFontStatement, t closeBrace] rtfFonts
  | fontsBlock (bytes : List Nat) :
      Plain [n rtfFonts, t openBrace, n rtfFontStatement, n rtfBlock, t (.text bytes), t closeBrace] rtfFonts
  | noFontAttrs : Plain [] rtfFontAttrs
  | fontAttrs {token : Terminal} (h : token ∈ fontAttrTokens) : Plain [n rtfFontAttrs, t token] rtfFontAttrs
  | fontAttrsBlock : Plain [n rtfFontAttrs, n rtfBlock] rtfFontAttrs
  | rtfFontFamily {token : Terminal} (h : token ∈ familyTokens) : Plain [t token] rtfFontFamily
  | rtfColorDef : Plain [t openBrace, t colortable, n rtfColors, t closeBrace] rtfColorDef
  | noColors : Plain [] rtfColors
  | colors : Plain [n rtfColors, n rtfColorStatement] rtfColors

/-- The rules whose action changes the innermost attributes or the tables. -/
inductive Command (userFont : List Nat) :
    List Symbol → NonTerminal → (RTFConsumer → Option RTFConsumer) → Prop
  | rtfStatement (s : Statement) : Command userFont [t (.statement s)] rtfStatement fun c => c.perform userFont s
  | font (parameter : Option Int) (bytes : List Nat) :
      Command userFont [t (.statement (.font parameter)), n rtfFontFamily, n rtfFontAttrs, t (.text bytes)]
        rtfFontStatement (RTFConsumer.GSRTFregisterFont bytes (parameter.getD 0))
  | fontBiDi (parameter : Option Int) (bytes : List Nat) :
      Command userFont
        [t (.statement (.font parameter)), t familyBiDi, n rtfFontFamily, n rtfFontAttrs, t (.text bytes)]
        rtfFontStatement (RTFConsumer.GSRTFregisterFont bytes (parameter.getD 0))
  | fontTheme (parameter : Option Int) (bytes : List Nat) :
      Command userFont
        [t (.statement .otherStatement), t (.statement (.font parameter)), t familyBiDi, n rtfFontFamily,
          n rtfFontAttrs, t (.text bytes)]
        rtfFontStatement (RTFConsumer.GSRTFregisterFont bytes (parameter.getD 0))
  | color (r g b : Int) (bytes : List Nat) :
      Command userFont [t (red r), t (green g), t (blue b), t (.text bytes)] rtfColorStatement
        fun c => some (c.GSRTFaddColor r g b)
  | defaultColor (bytes : List Nat) :
      Command userFont [t (.text bytes)] rtfColorStatement fun c => some c.GSRTFaddDefaultColor

/-- The actions that open a block, with what stands in front of them. -/
inductive Opening : List Symbol → Bool → Prop
  | block : Opening [t openBrace] false
  | ignored : Opening [t openBrace] true
  | field : Opening [t openBrace] false
  | fieldinst : Opening [t openBrace, n .rtfIgnore, t fldinst, t openBrace] true
  | NeXTGraphic (bytes : List Nat) :
      Opening
        [t openBrace, t .NeXTGraphic, t (.text bytes), t NeXTGraphicWidth, t NeXTGraphicHeight, t closeBrace] true
  | NeXTHelpLink (markername linkFilename linkMarkername : List Nat) :
      Opening
        [t openBrace, t .NeXTHelpLink, t NeXTmarkername, t (.text markername), t NeXTlinkFilename,
          t (.text linkFilename), t NeXTlinkMarkername, t (.text linkMarkername), t closeBrace] true
  | NeXTHelpMarker (markername : List Nat) :
      Opening [t openBrace, t .NeXTHelpMarker, t NeXTmarkername, t (.text markername), t closeBrace] true

/-- The rules that close the block they have opened: what is in front of its symbol, and behind it. -/
inductive Closing : List Symbol → Bool → List Symbol → NonTerminal → Prop
  | block : Closing [t openBrace] false [n rtfIngredients, n rtfNeXTstuff, t closeBrace] rtfBlock
  | ignored {token : Terminal} (h : token ∈ ignoredStarts) :
      Closing [t openBrace] true [t token, n rtfIngredients, t closeBrace] rtfBlock
  | field : Closing [t openBrace] false [t .field, n rtfField, t closeBrace] rtfBlock
  | fieldinst (bytes : List Nat) :
      Closing [t openBrace] true [n rtfStatementList, t (.text bytes), n rtfFieldalt, t closeBrace]
        rtfFieldinstBlock
  | NeXTGraphic (bytes : List Nat) :
      Closing
        [t openBrace, t .NeXTGraphic, t (.text bytes), t NeXTGraphicWidth, t NeXTGraphicHeight, t closeBrace] true
        [n rtfIngredients] rtfNeXTGraphic
  | NeXTHelpLink (markername linkFilename linkMarkername : List Nat) :
      Closing
        [t openBrace, t .NeXTHelpLink, t NeXTmarkername, t (.text markername), t NeXTlinkFilename,
          t (.text linkFilename), t NeXTlinkMarkername, t (.text linkMarkername), t closeBrace] true
        [n rtfIngredients] rtfNeXTHelpLink
  | NeXTHelpMarker (markername : List Nat) :
      Closing [t openBrace, t .NeXTHelpMarker, t NeXTmarkername, t (.text markername), t closeBrace] true
        [n rtfIngredients] rtfNeXTHelpMarker

inductive Rule (userFont : List Nat) :
    List Symbol → List Symbol → Symbol → (RTFConsumer → Option RTFConsumer) → Prop
  | plain {rhs : List Symbol} {lhs : NonTerminal} (h : Plain rhs lhs) : Rule userFont [] rhs (n lhs) some
  | command {rhs : List Symbol} {lhs : NonTerminal} {action : RTFConsumer → Option RTFConsumer}
      (h : Command userFont rhs lhs action) : Rule userFont [] rhs (n lhs) action
  | opening {context : List Symbol} {ignore : Bool} (h : Opening context ignore) :
      Rule userFont context [] (opened ignore) fun c => some (c.GSRTFopenBlock ignore)
  | closing {front rest : List Symbol} {ignore : Bool} {lhs : NonTerminal} (h : Closing front ignore rest lhs) :
      Rule userFont [] (front ++ opened ignore :: rest) (n lhs) fun c => some (c.GSRTFcloseBlock ignore)

/-- An error is taken behind the ingredients, behind a brace and behind `\field`, whichever comes first.
Behind the symbol of a block that is not ignored come its ingredients or `\field`, so that it stays. -/
def Drops (dropped : List Symbol) (last : Symbol) : Prop :=
  last ∈ [n rtfIngredients, t openBrace, t field] ∧
    n rtfIngredients ∉ dropped ∧ t field ∉ dropped ∧ opened false ∉ dropped

def grammar (userFont : List Nat) : ShiftReduce.Grammar Symbol RTFConsumer where
  Rule := Rule userFont
  IsToken s := ∃ terminal, s = t terminal
  error := error
  Drops := Drops

end GnustepGui.RTF
