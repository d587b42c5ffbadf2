import GnustepGui.RTF.Document
import GnustepGui.Library.Settings

/-!
# Reading a body

A reader of the pieces of a body with the scoping of RTF: a command changes the formatting, and a closing
brace brings back that of its opening brace. The text of a field is under the link that the instruction of
the field names. `unset` and `set` are what the reader makes of the commands for one attribute
(`run_removeAttributes`, `run_addAttributes`).
-/

namespace GnustepGui.RTF.RTFProducer

/-- The formatting of a character, in which `none` is the default. -/
@[ext]
structure Formatting (C : Type*) where
  family : Option (List Nat)
  size : Option Rat
  italic : Bool
  bold : Bool
  foreground : Option C
  background : Option C
  underline : Nat
  deriving DecidableEq

/-- A character that has been read. -/
structure Styled (C : Type*) where
  unit : Nat
  formatting : Formatting C
  link : Option (List Nat)
  deriving DecidableEq

/-- What is in force in a group. `instruction` says that its text is the instruction of a field. -/
structure Scope (C : Type*) where
  formatting : Formatting C
  link : Option (List Nat)
  instruction : Bool

structure Reading (C : Type*) where
  scope : Scope C
  groups : List (Scope C)
  instruction : List Nat

variable {C : Type*}

/-! ## Tables -/

/-- The family that has a number in the font table. -/
def fontNumbered (tables : Context C) (number : Int) : Option (List Nat) :=
  (tables.fonts.mergeSort precedes).find? fun fontName => toShort (tables.fonts.idxOf fontName) = number

/-- The colours count from 1, and 0 is the default. -/
def colorNumbered (tables : Context C) (number : Int) : Option C :=
  if 0 < number then tables.colors[(number - 1).toNat]? else none

/-! ## The reader -/

def underlineMask (word : String) : Option Nat :=
  match word with
  | "ulnone" => some 0
  | "ul" => some 1
  | "ulw" => some 1
  | "uld" => some 0x101
  | "uldash" => some 0x201
  | "uldashd" => some 0x301
  | "uldashdd" => some 0x401
  | "uldb" => some 9
  | "ulth" => some 2
  | "ulthd" => some 0x102
  | "ulthdash" => some 0x202
  | "ulthdashd" => some 0x302
  | "ulthdashdd" => some 0x402
  | _ => none

def Formatting.command (tables : Context C) (formatting : Formatting C) (word : String) (parameter : Option Int) :
    Formatting C :=
  match word with
  | "f" => { formatting with family := fontNumbered tables (parameter.getD 0) }
  | "fs" => { formatting with size := some ((parameter.getD 24 : Int) / 2) }
  | "i" => { formatting with italic := parameter ≠ some 0 }
  | "b" => { formatting with bold := parameter ≠ some 0 }
  | "cf" => { formatting with foreground := colorNumbered tables (parameter.getD 0) }
  | "cb" => { formatting with background := colorNumbered tables (parameter.getD 0) }
  | _ => { formatting with underline := (underlineMask word).getD formatting.underline }

/-- The address in an instruction. -/
def hyperlink (instruction : List Nat) : Option (List Nat) :=
  if ascii "HYPERLINK \"" <+: instruction then
    some (instruction.drop (ascii "HYPERLINK \"").length).dropLast
  else none

def Reading.format (s : Reading C) (formatting : Formatting C) : Reading C :=
  { s with scope := { s.scope with formatting := formatting } }

def Reading.control (tables : Context C) (s : Reading C) (word : String) (parameter : Option Int) : Reading C :=
  match word with
  | "fldinst" => { s with scope := { s.scope with instruction := true }, instruction := [] }
  | "fldrslt" => { s with scope := { s.scope with link := hyperlink s.instruction } }
  | _ => s.format (s.scope.formatting.command tables word parameter)

def Reading.openGroup (s : Reading C) : Reading C :=
  { s with groups := s.scope :: s.groups }

def Reading.closeGroup (s : Reading C) : Reading C :=
  match s.groups with
  | [] => s
  | scope :: groups => { s with scope := scope, groups := groups }

def Reading.text (s : Reading C) (units : List Nat) : Reading C × List (Styled C) :=
  if s.scope.instruction then ({ s with instruction := s.instruction ++ units }, [])
  else (s, units.map fun c => ⟨c, s.scope.formatting, s.scope.link⟩)

/-- The text of a string. An attachment character is written as the byte AC and a closing brace. -/
def Reading.characters : Reading C → List Nat → Reading C × List (Styled C)
  | s, [] => (s, [])
  | s, c :: string =>
    if c = NSAttachmentCharacter then
      let (s', read) := s.text [0xAC]
      let (s'', rest) := s'.closeGroup.characters string
      (s'', read ++ rest)
    else
      let (s', read) := s.text [c]
      let (s'', rest) := s'.characters string
      (s'', read ++ rest)

/-- The flag says that a command is just before the piece. A blank behind a command ends it, and text that
follows a command without a blank is not read. -/
def Reading.step (tables : Context C) (command : Bool) (s : Reading C) : Piece → Reading C × List (Styled C)
  | .control word parameter => (s.control tables word parameter, [])
  | .openBrace => (s.openGroup, [])
  | .closeBrace => (s.closeGroup, [])
  | .raw units => s.text (if command ∧ units.head? = some 32 then units.tail else units)
  | .characters string => if command then (s, []) else s.characters string

def Piece.isCommand : Piece → Bool
  | control _ _ => true
  | _ => false

def Reading.run (tables : Context C) : Bool → Reading C → List Piece → Reading C × List (Styled C)
  | _, s, [] => (s, [])
  | command, s, piece :: pieces =>
    let (s', read) := s.step tables command piece
    let (s'', rest) := run tables piece.isCommand s' pieces
    (s'', read ++ rest)

def defaultFormatting : Formatting C :=
  ⟨none, none, false, false, none, none, 0⟩

def Reading.start : Reading C :=
  ⟨⟨defaultFormatting, none, false⟩, [], []⟩

def commandBehind (command : Bool) (pieces : List Piece) : Bool :=
  (pieces.getLast?.map Piece.isCommand).getD command

theorem commandBehind_cons (command : Bool) (piece : Piece) (pieces : List Piece) :
    commandBehind command (piece :: pieces) = commandBehind piece.isCommand pieces := by
  cases pieces with
  | nil => rfl
  | cons piece' pieces => simp only [commandBehind, List.getLast?_cons, Option.map_some, Option.getD_some]

theorem Reading.run_append (tables : Context C) (command : Bool) (s : Reading C) (pieces pieces' : List Piece) :
    s.run tables command (pieces ++ pieces') =
      (((s.run tables command pieces).1.run tables (commandBehind command pieces) pieces').1,
        (s.run tables command pieces).2 ++
          ((s.run tables command pieces).1.run tables (commandBehind command pieces) pieces').2) := by
  induction pieces generalizing command s with
  | nil => rfl
  | cons piece pieces ih =>
    simp only [List.cons_append, run, ih, commandBehind_cons, List.append_assoc]

theorem Reading.run_append_of_eq {tables : Context C} {command : Bool} {s s' : Reading C} {pieces : List Piece}
    (h : s.run tables command pieces = (s', [])) (pieces' : List Piece) :
    s.run tables command (pieces ++ pieces') = s'.run tables (commandBehind command pieces) pieces' := by
  rw [run_append, h]
  rfl

/-! ## Attributes -/

def Attribute.font? : Attribute C → Option NSFont
  | .font value => some value
  | _ => none

def Attribute.foreground? : Attribute C → Option C
  | .foregroundColor color => some color
  | _ => none

def Attribute.background? : Attribute C → Option C
  | .backgroundColor color => some color
  | _ => none

def Attribute.underline? : Attribute C → Option Nat
  | .underlineStyle styleMask => some styleMask
  | _ => none

def Attribute.link? : Attribute C → Option Link
  | .link value => some value
  | _ => none

/-- The attributes of characters that the reader knows. -/
def Attribute.formats : Attribute C → Bool
  | .font _ | .foregroundColor _ | .backgroundColor _ | .underlineStyle _ | .link _ => true
  | _ => false

/-- What the commands for a removed attribute do. -/
def Formatting.unset (formatting : Formatting C) : Attribute C → Formatting C
  | .foregroundColor _ => { formatting with foreground := none }
  | .backgroundColor _ => { formatting with background := none }
  | .underlineStyle _ => { formatting with underline := 0 }
  | _ => formatting

def underlineRead (styleMask : Nat) : Nat :=
  if styleMask = 0 then 0
  else if styleMask &&& 0x09 = 0x09 then 9
  else if styleMask &&& 0x02 = 0x02 then
    if styleMask &&& 0x0100 = 0x0100 then 0x102
    else if styleMask &&& 0x0200 = 0x0200 then 0x202
    else if styleMask &&& 0x0300 = 0x0300 then 0x302
    else if styleMask &&& 0x0400 = 0x0400 then 0x402
    else 2
  else if styleMask &&& 0x0100 = 0x0100 then 0x101
  else if styleMask &&& 0x0200 = 0x0200 then 0x201
  else if styleMask &&& 0x0300 = 0x0300 then 0x301
  else if styleMask &&& 0x0400 = 0x0400 then 0x401
  else 1

section Set

variable [DecidableEq C]

/-- What the commands for a new attribute do. -/
def Formatting.set (env : Environment C) (tables : Context C) (attributesOfLastRun : List (Attribute C))
    (formatting : Formatting C) : Attribute C → Formatting C
  | .font font =>
    let fontOfLastRun := lastFont attributesOfLastRun
    { formatting with
      family :=
        if fontOfLastRun.map (·.familyName) = some font.familyName then formatting.family
        else fontNumbered tables (toShort (tables.fonts.idxOf font.familyName))
      size :=
        if fontOfLastRun.map (·.pointSize) = some font.pointSize then formatting.size
        else some (toShort (toInt (font.pointSize * 2)) / 2)
      italic := if font.italic = fontOfLastRun.any (·.italic) then formatting.italic else font.italic
      bold := if font.bold = fontOfLastRun.any (·.bold) then formatting.bold else font.bold }
  | .foregroundColor color =>
    if color = env.textColor then formatting
    else { formatting with foreground := colorNumbered tables (toShort (tables.colors.idxOf color + 1)) }
  | .backgroundColor color =>
    if color = env.textBackgroundColor then formatting
    else { formatting with background := colorNumbered tables (toShort (tables.colors.idxOf color + 1)) }
  | .underlineStyle styleMask => { formatting with underline := underlineRead styleMask }
  | _ => formatting

end Set

/-! ## Running commands -/

@[simp] theorem Reading.format_scope_formatting (s : Reading C) (formatting : Formatting C) :
    (s.format formatting).scope.formatting = formatting := rfl

@[simp] theorem Reading.format_format (s : Reading C) (formatting formatting' : Formatting C) :
    (s.format formatting).format formatting' = s.format formatting' := rfl

theorem Reading.control_f (tables : Context C) (s : Reading C) (number : Int) :
    s.control tables "f" (some number) =
      s.format { s.scope.formatting with family := fontNumbered tables number } := rfl

theorem Reading.control_fs (tables : Context C) (s : Reading C) (number : Int) :
    s.control tables "fs" (some number) = s.format { s.scope.formatting with size := some (number / 2) } := rfl

theorem Reading.control_i (tables : Context C) (s : Reading C) (italic : Bool) :
    s.control tables "i" (if italic then none else some 0) =
      s.format { s.scope.formatting with italic := italic } := by
  cases italic <;> rfl

theorem Reading.control_b (tables : Context C) (s : Reading C) (bold : Bool) :
    s.control tables "b" (if bold then none else some 0) =
      s.format { s.scope.formatting with bold := bold } := by
  cases bold <;> rfl

theorem Reading.run_control {tables : Context C} {word : String} {parameter : Option Int} {formatting' : Formatting C}
    (s : Reading C) (command : Bool) (h : s.control tables word parameter = s.format formatting') :
    s.run tables command [.control word parameter] = (s.format formatting', []) := by
  simp only [run, step, h, List.append_nil]

theorem Reading.run_ite {tables : Context C} {p : Prop} [Decidable p] {pieces : List Piece}
    {formatting' : Formatting C} (s : Reading C) (command : Bool)
    (h : s.run tables command pieces = (s.format formatting', [])) :
    s.run tables command (if p then [] else pieces) =
      (s.format (if p then s.scope.formatting else formatting'), []) := by
  split
  · rfl
  · exact h

theorem run_removeAttribute (tables : Context C) {attr : Attribute C} (hf : attr.formats = true)
    (hl : attr.link? = none) (s : Reading C) (command : Bool) :
    s.run tables command (removeAttribute attr) = (s.format (s.scope.formatting.unset attr), []) := by
  cases attr with
  | font font => rfl
  | foregroundColor color => exact s.run_control command rfl
  | backgroundColor color => exact s.run_control command rfl
  | underlineStyle styleMask => exact s.run_control command rfl
  | link link => cases hl
  | _ => cases hf

theorem run_underlinePieces (tables : Context C) (styleMask : Nat) (s : Reading C) (command : Bool) :
    s.run tables command (underlinePieces styleMask) =
      (s.format { s.scope.formatting with underline := underlineRead styleMask }, []) := by
  have hwr (s : Reading C) (command : Bool) : s.run tables command [if styleMask = 0 then .control "ulnone" none
      else if styleMask &&& 0x09 = 0x09 then .control "uldb" none
      else if styleMask &&& 0x02 = 0x02 then
        if styleMask &&& 0x0100 = 0x0100 then .control "ulthd" none
        else if styleMask &&& 0x0200 = 0x0200 then .control "ulthdash" none
        else if styleMask &&& 0x0300 = 0x0300 then .control "ulthdashd" none
        else if styleMask &&& 0x0400 = 0x0400 then .control "ulthdashdd" none
        else .control "ulth" none
      else if styleMask &&& 0x0100 = 0x0100 then .control "uld" none
      else if styleMask &&& 0x0200 = 0x0200 then .control "uldash" none
      else if styleMask &&& 0x0300 = 0x0300 then .control "uldashd" none
      else if styleMask &&& 0x0400 = 0x0400 then .control "uldashdd" none
      else .control "ul" none] = (s.format { s.scope.formatting with underline := underlineRead styleMask }, []) := by
    unfold underlineRead
    split_ifs <;> rfl
  have hw : s.run tables command (if styleMask &&& 0x01 = 0x01 then [.control "ulw" none] else []) =
      (if styleMask &&& 0x01 = 0x01 then s.format { s.scope.formatting with underline := 1 } else s, []) := by
    split_ifs <;> rfl
  unfold underlinePieces
  rw [Reading.run_append_of_eq hw, hwr]
  split_ifs <;> rfl

/-! ## The tables grow -/

/-- The tables begin with what has been numbered so far. -/
structure Context.Within (context tables : Context C) : Prop where
  fonts : context.fonts <+: tables.fonts
  colors : context.colors <+: tables.colors

theorem Context.Within.refl (context : Context C) : context.Within context := ⟨List.prefix_rfl, List.prefix_rfl⟩

theorem Context.Within.trans {context context' context'' : Context C} (h : context.Within context')
    (h' : context'.Within context'') : context.Within context'' := ⟨h.fonts.trans h'.fonts, h.colors.trans h'.colors⟩

theorem idxOf_of_prefix {α : Type*} [BEq α] [LawfulBEq α] {l table : List α} {a : α}
    (h : (if a ∈ l then l else l ++ [a]) <+: table) : table.idxOf a = l.idxOf a := by
  obtain ⟨more, rfl⟩ := h
  split
  · rename_i ha
    exact List.idxOf_append_of_mem ha
  · rename_i ha
    rw [List.append_assoc, List.idxOf_append_of_notMem ha, List.idxOf_of_notMem ha]
    simp

theorem fontToken_fonts (context : Context C) (fontName : List Nat) :
    (fontToken context fontName).2.fonts =
      if fontName ∈ context.fonts then context.fonts else context.fonts ++ [fontName] := by
  unfold fontToken
  split <;> rfl

theorem fontToken_colors (context : Context C) (fontName : List Nat) :
    (fontToken context fontName).2.colors = context.colors := by
  unfold fontToken
  split <;> rfl

theorem fontToken_within (context : Context C) (fontName : List Nat) :
    context.Within (fontToken context fontName).2 := by
  refine ⟨?_, fontToken_colors context fontName ▸ List.prefix_rfl⟩
  rw [fontToken_fonts]
  split
  · exact List.prefix_rfl
  · exact List.prefix_append _ _

section Numbers

variable [DecidableEq C]

theorem numberForColor_colors (context : Context C) (color : C) :
    (numberForColor context color).2.colors =
      if color ∈ context.colors then context.colors else context.colors ++ [color] := by
  unfold numberForColor
  split <;> rfl

theorem numberForColor_fonts (context : Context C) (color : C) :
    (numberForColor context color).2.fonts = context.fonts := by
  unfold numberForColor
  split <;> rfl

theorem numberForColor_within (context : Context C) (color : C) : context.Within (numberForColor context color).2 := by
  refine ⟨numberForColor_fonts context color ▸ List.prefix_rfl, ?_⟩
  rw [numberForColor_colors]
  split
  · exact List.prefix_rfl
  · exact List.prefix_append _ _

theorem addAttribute_within (env : Environment C) (attributesOfLastRun : List (Attribute C)) (context : Context C)
    {attr : Attribute C} (hf : attr.formats = true) :
    context.Within (addAttribute env attributesOfLastRun context attr).2 := by
  cases attr with
  | font font =>
    simp only [addAttribute, fontPieces]
    split
    · exact .refl context
    · exact fontToken_within context font.familyName
  | foregroundColor color =>
    simp only [addAttribute]
    split
    · exact .refl context
    · exact numberForColor_within context color
  | backgroundColor color =>
    simp only [addAttribute]
    split
    · exact .refl context
    · exact numberForColor_within context color
  | underlineStyle styleMask => exact .refl context
  | link link => exact .refl context
  | _ => cases hf

variable {attributes : List (Attribute C)}

theorem addAttributes_within (env : Environment C) (attributesOfLastRun : List (Attribute C)) (context : Context C)
    (hf : ∀ attr ∈ attributes, attr.formats = true) :
    context.Within (addAttributes env attributesOfLastRun context attributes).2 := by
  induction attributes generalizing context with
  | nil => exact .refl context
  | cons attr attributes ih =>
    have hat := addAttribute_within env attributesOfLastRun context (hf attr List.mem_cons_self)
    exact hat.trans (ih _ fun a ha => hf a (List.mem_cons_of_mem _ ha))

/-! ## New attributes -/

variable {tables context : Context C}

theorem run_fontPieces {attributesOfLastRun : List (Attribute C)} {font : NSFont}
    (env : Environment C) (h : (fontPieces context attributesOfLastRun font).2.Within tables) (s : Reading C)
    (command : Bool) : s.run tables command (fontPieces context attributesOfLastRun font).1 =
      (s.format (s.scope.formatting.set env tables attributesOfLastRun (.font font)), []) := by
  have hf : s.run tables command
      (if (lastFont attributesOfLastRun).map (·.familyName) = some font.familyName then []
        else [(fontToken context font.familyName).1]) =
      (s.format (if (lastFont attributesOfLastRun).map (·.familyName) = some font.familyName then s.scope.formatting
        else { s.scope.formatting with
          family := fontNumbered tables (toShort (tables.fonts.idxOf font.familyName)) }), []) := by
    split
    · rfl
    · rename_i hs
      have hi : tables.fonts.idxOf font.familyName = context.fonts.idxOf font.familyName := by
        simp only [fontPieces, if_neg hs] at h
        exact idxOf_of_prefix (fontToken_fonts context font.familyName ▸ h.fonts)
      rw [hi]
      exact s.run_control command (s.control_f tables _)
  have hsz (s : Reading C) (command : Bool) := s.run_ite
    (p := (lastFont attributesOfLastRun).map (·.pointSize) = some font.pointSize) command
    (s.run_control command (s.control_fs tables (toShort (toInt (font.pointSize * 2)))))
  have hit (s : Reading C) (command : Bool) := s.run_ite
    (p := font.italic = (lastFont attributesOfLastRun).any (·.italic)) command
    (s.run_control command (s.control_i tables font.italic))
  have hb (s : Reading C) (command : Bool) := s.run_ite
    (p := font.bold = (lastFont attributesOfLastRun).any (·.bold)) command
    (s.run_control command (s.control_b tables font.bold))
  unfold fontPieces
  dsimp only
  rw [List.append_assoc, List.append_assoc]
  refine (Reading.run_append_of_eq hf _).trans ?_
  refine (Reading.run_append_of_eq (hsz _ _) _).trans ?_
  refine (Reading.run_append_of_eq (hit _ _) _).trans ?_
  refine (hb _ _).trans ?_
  simp only [Reading.format_format, Reading.format_scope_formatting, Formatting.set]
  split_ifs <;> rfl

theorem run_color {color default : C} {word : String}
    {π : Formatting C → Option C → Formatting C}
    (hw : ∀ (s : Reading C) (number : Int), s.control tables word (some number) =
      s.format (π s.scope.formatting (colorNumbered tables number)))
    (h : (if color = default then context else (numberForColor context color).2).Within tables) (s : Reading C)
    (command : Bool) :
    s.run tables command (if color = default then [] else [.control word (toShort (numberForColor context color).1)]) =
      (s.format (if color = default then s.scope.formatting
        else π s.scope.formatting (colorNumbered tables (toShort (tables.colors.idxOf color + 1)))), []) := by
  split
  · rfl
  · rename_i hc
    rw [if_neg hc] at h
    have hi : tables.colors.idxOf color = context.colors.idxOf color :=
      idxOf_of_prefix (numberForColor_colors context color ▸ h.colors)
    rw [hi]
    exact s.run_control command (hw s _)

theorem run_addAttribute (env : Environment C) (attributesOfLastRun : List (Attribute C))
    {attr : Attribute C} (hf : attr.formats = true) (hl : attr.link? = none)
    (h : (addAttribute env attributesOfLastRun context attr).2.Within tables) (s : Reading C) (command : Bool) :
    s.run tables command (addAttribute env attributesOfLastRun context attr).1 =
      (s.format (s.scope.formatting.set env tables attributesOfLastRun attr), []) := by
  cases attr with
  | font font => exact run_fontPieces env h s command
  | foregroundColor color =>
    have hw (s : Reading C) (number : Int) : s.control tables "cf" (some number) =
        s.format { s.scope.formatting with foreground := colorNumbered tables number } := rfl
    simp only [addAttribute, apply_ite Prod.fst, apply_ite Prod.snd] at h ⊢
    exact run_color (π := fun formatting color => { formatting with foreground := color }) hw h s command
  | backgroundColor color =>
    have hw (s : Reading C) (number : Int) : s.control tables "cb" (some number) =
        s.format { s.scope.formatting with background := colorNumbered tables number } := rfl
    simp only [addAttribute, apply_ite Prod.fst, apply_ite Prod.snd] at h ⊢
    exact run_color (π := fun formatting color => { formatting with background := color }) hw h s command
  | underlineStyle styleMask => exact run_underlinePieces tables styleMask s command
  | link link => cases hl
  | _ => cases hf

omit [DecidableEq C] in
theorem run_removeAttributes (tables : Context C)
    (hf : ∀ attr ∈ attributes, attr.formats = true) (hl : ∀ attr ∈ attributes, attr.link? = none)
    (s : Reading C) (command : Bool) : s.run tables command (attributes.flatMap removeAttribute) =
      (s.format (attributes.foldl Formatting.unset s.scope.formatting), []) := by
  induction attributes generalizing s command with
  | nil => rfl
  | cons attr attributes ih =>
    rw [List.flatMap_cons, Reading.run_append_of_eq
      (run_removeAttribute tables (hf attr List.mem_cons_self) (hl attr List.mem_cons_self) s command),
      ih (fun a ha => hf a (List.mem_cons_of_mem _ ha)) fun a ha => hl a (List.mem_cons_of_mem _ ha)]
    rfl

theorem run_addAttributes (env : Environment C) (attributesOfLastRun : List (Attribute C))
    (hf : ∀ attr ∈ attributes, attr.formats = true) (hl : ∀ attr ∈ attributes, attr.link? = none)
    (h : (addAttributes env attributesOfLastRun context attributes).2.Within tables) (s : Reading C) (command : Bool) :
    s.run tables command (addAttributes env attributesOfLastRun context attributes).1 =
      (s.format (attributes.foldl (Formatting.set env tables attributesOfLastRun) s.scope.formatting), []) := by
  induction attributes generalizing context s command with
  | nil => rfl
  | cons attr attributes ih =>
    have hr (a : Attribute C) (ha : a ∈ attributes) := hf a (List.mem_cons_of_mem _ ha)
    have hat := (addAttributes_within env attributesOfLastRun _ hr).trans h
    simp only [addAttributes] at h ⊢
    rw [Reading.run_append_of_eq
      (run_addAttribute env attributesOfLastRun (hf attr List.mem_cons_self) (hl attr List.mem_cons_self)
        hat s command), ih hr (fun a ha => hl a (List.mem_cons_of_mem _ ha)) h]
    rfl

theorem addAttributes_append (env : Environment C) (attributesOfLastRun : List (Attribute C)) (context : Context C)
    (attributes attributes' : List (Attribute C)) :
    addAttributes env attributesOfLastRun context (attributes ++ attributes') =
      ((addAttributes env attributesOfLastRun context attributes).1 ++
        (addAttributes env attributesOfLastRun (addAttributes env attributesOfLastRun context attributes).2
          attributes').1,
        (addAttributes env attributesOfLastRun (addAttributes env attributesOfLastRun context attributes).2
          attributes').2) := by
  induction attributes generalizing context with
  | nil => rfl
  | cons attr attributes ih =>
    simp only [List.cons_append, addAttributes, ih, List.append_assoc]

end Numbers

/-! ## Links -/

theorem hyperlink_url (url : List Nat) : hyperlink (ascii "HYPERLINK \"" ++ (url ++ ascii "\"")) = some url := by
  rw [hyperlink, if_pos (List.prefix_append _ _), List.drop_left]
  exact congrArg some List.dropLast_concat

/-- A link opens two groups, of which the one for its text is the inner one. -/
def Reading.openLink (s : Reading C) (link : Link) : Reading C where
  scope := { s.scope with link := some link.absoluteString }
  groups := s.scope :: s.scope :: s.groups
  instruction := ascii "HYPERLINK \"" ++ (link.absoluteString ++ ascii "\"")

theorem run_linkPieces (tables : Context C) (link : Link) (s : Reading C) (command : Bool)
    (hs : s.scope.instruction = false) : s.run tables command (linkPieces link) = (s.openLink link, []) := by
  have hr : ascii " HYPERLINK \"" ++ link.absoluteString ++ ascii "\"" =
      32 :: (ascii "HYPERLINK \"" ++ (link.absoluteString ++ ascii "\"")) := by
    rw [← List.append_assoc]
    rfl
  have hb : (ascii " ").head? = some 32 ∧ (ascii " ").tail = [] := ⟨rfl, rfl⟩
  obtain ⟨⟨formatting, url, instruction⟩, groups, text⟩ := s
  cases hs
  simp [linkPieces, Reading.run, Reading.step, Reading.openGroup, Reading.control, Formatting.command, underlineMask,
    Reading.format, Reading.text, Reading.closeGroup, Piece.isCommand, hr, hb, Reading.openLink, hyperlink_url]

theorem run_closeLink (tables : Context C) (s : Reading C) (command : Bool) :
    s.run tables command [.closeBrace, .closeBrace] = (s.closeGroup.closeGroup, []) := rfl

end GnustepGui.RTF.RTFProducer
