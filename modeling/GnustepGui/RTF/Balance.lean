import GnustepGui.Library.Nesting
import GnustepGui.RTF.Document

/-!
# The braces of a document

A link writes two braces that its removal closes, an attachment one that the attachment character closes.
`documentChanges` counts these along the runs, with the braces of the names that are written as they are.
-/

namespace GnustepGui.RTF.RTFProducer

open Nesting

def braces : Marks Nat where
  opening := 123
  closing := 125
  escape := 92
  opening_ne := by decide
  closing_ne := by decide
  distinct := by decide

/-! ## The count -/

variable {C : Type*}

/-- The braces of a name, which is not escaped. -/
def nameChanges (name : List Nat) : List Int :=
  levels braces false name

def removeChanges : Attribute C → List Int
  | .link _ => [-2]
  | _ => []

def attachmentChanges (env : Environment C) (context : Context C) : NSTextAttachment → List Int
  | .helpLink _ fileName markerName => 2 :: (nameChanges fileName ++ nameChanges markerName ++ [-1])
  | .helpMarker _ markerName => 2 :: (nameChanges markerName ++ [-1])
  | .file _ fileWrapper _ _ =>
    2 :: (nameChanges (env.lastPathComponent (attachmentFilename env context fileWrapper).1) ++ [-1])

def addChanges (env : Environment C) (context : Context C) : Attribute C → List Int
  | .attachment attachment => attachmentChanges env context attachment
  | .link _ => [2]
  | _ => []

def characterChanges (string : List Nat) : List Int :=
  string.flatMap fun c => if c = NSAttachmentCharacter then [-1] else []

def headerChanges (context : Context C) : List Int :=
  if context.fonts = [] then []
  else 1 :: ((context.fonts.mergeSort precedes).flatMap nameChanges ++ [-1])

section Count

variable [DecidableEq C]

def addedChanges (env : Environment C) (attributesOfLastRun : List (Attribute C)) :
    Context C → List (Attribute C) → List Int
  | _, [] => []
  | context, attr :: attributes =>
    addChanges env context attr ++
      addedChanges env attributesOfLastRun (addAttribute env attributesOfLastRun context attr).2 attributes

def runChanges (env : Environment C) (attributesOfLastRun : List (Attribute C)) (context : Context C)
    (run : AttributedRun C) : List Int :=
  (attributesToRemove env attributesOfLastRun run.attributes).flatMap removeChanges ++
    addedChanges env attributesOfLastRun context (attributesToAdd env attributesOfLastRun run.attributes) ++
    characterChanges run.string

def bodyChanges (env : Environment C) :
    List (Attribute C) → Context C → List (AttributedRun C) → List Int
  | _, _, [] => []
  | attributesOfLastRun, context, run :: runs =>
    runChanges env attributesOfLastRun context run ++
      bodyChanges env run.attributes (runString env attributesOfLastRun context run).2 runs

def documentChanges (env : Environment C) (runs : List (AttributedRun C)) : List Int :=
  headerChanges (bodyString env [] ⟨[], [], [], 0⟩ runs).2 ++ bodyChanges env [] ⟨[], [], [], 0⟩ runs

end Count

/-! ## Pieces without braces -/

def isPlain (c : Nat) : Bool :=
  c ≠ 92 && c ≠ 123 && c ≠ 125

theorem plain_of_isPlain {c : Nat} (h : isPlain c = true) : Plain braces c := by
  simp only [isPlain, ne_eq, Bool.and_eq_true, decide_eq_true_eq] at h
  exact ⟨h.1.1, h.1.2, h.2⟩

/-- The name of a command has no mark behind its first character. -/
def Piece.quiet : Piece → Bool
  | control word _ => (ascii word).length ≠ 0 && (ascii word).tail.all isPlain
  | raw units => units.all isPlain
  | _ => false

def Quiet (pieces : List Piece) : Prop :=
  ∀ piece ∈ pieces, piece.quiet = true

theorem quiet_of_all {pieces : List Piece} (h : pieces.all Piece.quiet = true) : Quiet pieces := List.all_eq_true.mp h

theorem quiet_nil : Quiet [] := by
  intro piece hp
  cases hp

theorem quiet_singleton {piece : Piece} (h : piece.quiet = true) : Quiet [piece] := by
  intro piece' hp
  rw [List.mem_singleton.mp hp]
  exact h

theorem Quiet.append {pieces pieces' : List Piece} (h : Quiet pieces) (h' : Quiet pieces') :
    Quiet (pieces ++ pieces') := List.forall_mem_append.mpr ⟨h, h'⟩

theorem Quiet.ite {p : Prop} [Decidable p] {pieces pieces' : List Piece} (h : Quiet pieces)
    (h' : Quiet pieces') : Quiet (if p then pieces else pieces') := by
  split
  · exact h
  · exact h'

theorem quiet_flatMap {β : Type*} {f : β → List Piece} (xs : List β) (h : ∀ x, Quiet (f x)) : Quiet (xs.flatMap f) := by
  intro piece hp
  obtain ⟨x, -, hx⟩ := List.mem_flatMap.mp hp
  exact h x piece hx

theorem render_append (pieces pieces' : List Piece) : render (pieces ++ pieces') = render pieces ++ render pieces' :=
  List.flatMap_append

theorem render_cons (piece : Piece) (pieces : List Piece) : render (piece :: pieces) = piece.render ++ render pieces :=
  List.flatMap_cons

theorem decimal_plain (n : Int) : ∀ c ∈ decimal n, Plain braces c := by
  have hdg (k : Nat) : ∀ c ∈ (Nat.digits 10 k).reverse.map (48 + ·), Plain braces c := by
    intro c hc
    obtain ⟨d, hd, rfl⟩ := List.mem_map.mp hc
    have hlt := Nat.digits_lt_base (by decide : 1 < 10) (List.mem_reverse.mp hd)
    refine ⟨?_, ?_, ?_⟩ <;> simp only [braces] <;> omega
  intro c hc
  unfold decimal at hc
  split at hc
  · rw [List.mem_singleton.mp hc]
    exact plain_of_isPlain rfl
  · split at hc
    · obtain rfl | hc := List.mem_cons.mp hc
      · exact plain_of_isPlain rfl
      · exact hdg _ c hc
    · exact hdg _ c hc

theorem amounts_of_quiet {piece : Piece} (h : piece.quiet = true) : Amounts braces piece.render [] := by
  cases piece with
  | control word parameter =>
    simp only [Piece.quiet, Bool.and_eq_true, List.all_eq_true] at h
    cases hw : ascii word with
    | nil =>
      rw [hw] at h
      exact absurd h.1 (by decide)
    | cons c rest =>
      rw [hw] at h
      simp only [Piece.render, hw]
      refine amounts_escape (m := braces) c fun x hx => ?_
      obtain hx | hx := List.mem_append.mp hx
      · exact plain_of_isPlain (h.2 x hx)
      · cases parameter with
        | none => cases hx
        | some n => exact decimal_plain n x hx
  | raw units =>
    simp only [Piece.quiet, List.all_eq_true] at h
    exact amounts_plain fun x hx => plain_of_isPlain (h x hx)
  | _ => cases h

theorem Quiet.amounts {pieces : List Piece} (h : Quiet pieces) : Amounts braces (render pieces) [] := by
  induction pieces with
  | nil => exact amounts_nil
  | cons piece pieces ih =>
    rw [render_cons]
    exact (amounts_of_quiet (h piece List.mem_cons_self)).append (ih fun p hp => h p (List.mem_cons_of_mem _ hp))

/-! ## Attributes -/

theorem quiet_tabStop (tab : NSTextTabType × Rat) : Quiet (tabStop tab) := by
  unfold tabStop
  refine .append ?_ (quiet_singleton rfl)
  cases tab.1 with
  | left => exact quiet_nil
  | _ => exact quiet_singleton rfl

theorem quiet_twipsControl {word : String} (h : (Piece.control word none).quiet = true) (twips : Int) :
    Quiet (twipsControl word twips) := .ite (quiet_singleton h) quiet_nil

theorem quiet_rightIndent (docDict : Option DocumentAttributes) (style : NSParagraphStyle) :
    Quiet (rightIndent docDict style) := by
  unfold rightIndent
  split
  · exact quiet_nil
  · split
    · exact quiet_singleton rfl
    · exact quiet_nil

theorem quiet_paragraphStyle (docDict : Option DocumentAttributes) (style : NSParagraphStyle) :
    Quiet (paragraphStyle docDict style) := by
  unfold paragraphStyle
  exact (((((((((quiet_singleton rfl).append (quiet_flatMap _ quiet_tabStop)).append
    (.ite (quiet_singleton rfl) quiet_nil)).append (quiet_twipsControl rfl _)).append
    (quiet_twipsControl rfl _)).append (quiet_rightIndent _ _)).append (quiet_twipsControl rfl _)).append
    (quiet_twipsControl rfl _)).append (quiet_twipsControl rfl _)).append (quiet_singleton (by cases style.alignment <;> rfl))

theorem quiet_underlinePieces (styleMask : Nat) : Quiet (underlinePieces styleMask) := by
  unfold underlinePieces
  refine .append (.ite (quiet_singleton rfl) quiet_nil) (quiet_singleton ?_)
  split_ifs <;> rfl

theorem quiet_superscriptPieces (value : Int) : Quiet (superscriptPieces value) :=
  .ite (quiet_singleton rfl) (.ite (quiet_singleton rfl) quiet_nil)

theorem quiet_baselinePieces (value : Rat) : Quiet (baselinePieces value) :=
  .ite (quiet_singleton rfl) (.ite (quiet_singleton rfl) quiet_nil)

theorem low_opening_opening (s : List Int) : low (1 :: 1 :: s) = low (2 :: s) := by
  have := low_nonpos s
  simp only [low]
  omega

theorem amounts_name {before : List Nat} (hb : before.all isPlain = true) (name : List Nat) {c : Nat}
    (hc : isPlain c = true) : Amounts braces (before ++ (name ++ [c])) (nameChanges name) := by
  have hp : Amounts braces before [] := amounts_plain fun x hx =>
    plain_of_isPlain (List.all_eq_true.mp hb x hx)
  exact hp.append (amounts_text name (plain_of_isPlain hc))

section Attributes

variable [DecidableEq C]

omit [DecidableEq C] in
theorem quiet_fontPieces (context : Context C) (attributesOfLastRun : List (Attribute C)) (font : NSFont) :
    Quiet (fontPieces context attributesOfLastRun font).1 := by
  unfold fontPieces
  exact (((Quiet.ite quiet_nil (quiet_singleton rfl)).append (.ite quiet_nil (quiet_singleton rfl))).append
    (.ite quiet_nil (quiet_singleton rfl))).append (.ite quiet_nil (quiet_singleton rfl))

omit [DecidableEq C] in
theorem amounts_removeAttribute (attr : Attribute C) :
    Amounts braces (render (removeAttribute attr)) (removeChanges attr) := by
  cases attr with
  | link link => exact ⟨rfl, rfl, rfl⟩
  | baselineOffset value => exact Quiet.amounts (.ite (quiet_singleton rfl) (quiet_singleton rfl))
  | paragraphStyle style => exact Quiet.amounts ((quiet_singleton rfl).append (quiet_singleton rfl))
  | foregroundColor color => exact Quiet.amounts (quiet_singleton rfl)
  | backgroundColor color => exact Quiet.amounts (quiet_singleton rfl)
  | underlineStyle styleMask => exact Quiet.amounts (quiet_singleton rfl)
  | superscript value => exact Quiet.amounts (quiet_singleton rfl)
  | ligature value => exact Quiet.amounts (quiet_singleton rfl)
  | _ => exact quiet_nil.amounts

variable {pieces : List Piece}

theorem amounts_quiet_name (h : Quiet pieces) (name : List Nat) {c : Nat} (hc : isPlain c = true) :
    Amounts braces (render (pieces ++ [.raw (ascii " " ++ (name ++ [c]))])) (nameChanges name) := by
  have hn : Amounts braces (render [.raw (ascii " " ++ (name ++ [c]))]) (nameChanges name) := by
    rw [render_cons]
    exact (amounts_name rfl name hc).append amounts_nil |>.congr (by rw [List.append_nil]) (by rw [List.append_nil])
  rw [render_append]
  exact h.amounts.append hn

theorem amounts_attachment {s : List Int} (h : Amounts braces (render pieces) s) :
    Amounts braces (render (.openBrace :: .openBrace :: (pieces ++ [.closeBrace]))) (2 :: (s ++ [-1])) := by
  have hc : Amounts braces (render [.closeBrace]) [-1] := amounts_closing
  have hg : Amounts braces (render (.openBrace :: .openBrace :: (pieces ++ [.closeBrace])))
      (1 :: 1 :: (s ++ [-1])) := by
    rw [render_cons, render_cons, render_append]
    exact (amounts_opening (m := braces)).append ((amounts_opening (m := braces)).append (h.append hc))
  refine hg.congr (low_opening_opening _) ?_
  simp only [List.sum_cons]
  omega

omit [DecidableEq C] in
theorem amounts_attachmentPieces (env : Environment C) (context : Context C) (attachment : NSTextAttachment) :
    Amounts braces (render (attachmentPieces env context attachment).1) (attachmentChanges env context attachment) := by
  cases attachment with
  | helpLink id fileName markerName =>
    have hf : Quiet [.control "NeXTHelpLink" none, .raw (ascii " "), .control "markername" none,
      .raw (ascii " ;"), .control "linkFilename" none] := quiet_of_all rfl
    have hm : Quiet [.control "linkMarkername" none] := quiet_of_all rfl
    have h := (amounts_quiet_name hf fileName (c := 59) rfl).append
      (amounts_quiet_name hm markerName (c := 59) rfl)
    rw [← render_append] at h
    exact amounts_attachment h
  | helpMarker id markerName =>
    have hm : Quiet [.control "NeXTHelpMarker" none, .raw (ascii " "), .control "markername" none] := quiet_of_all rfl
    exact amounts_attachment (amounts_quiet_name hm markerName (c := 59) rfl)
  | file id fileWrapper width height =>
    have hf : Quiet [.control "NeXTGraphic" none] := quiet_of_all rfl
    have hs : Quiet [.control "width" (toShort (points2twips width)), .raw (ascii " "),
        .control "height" (toShort (points2twips height))] := quiet_of_all rfl
    have h := (amounts_quiet_name hf (env.lastPathComponent (attachmentFilename env context fileWrapper).1)
      (c := 32) rfl).append hs.amounts
    rw [← render_append, List.append_nil] at h
    exact amounts_attachment h

theorem amounts_linkPieces (link : Link) : Amounts braces (render (linkPieces link)) [2] := by
  have hu : Quiet [.raw (ascii " HYPERLINK \"" ++ link.absoluteString ++ ascii "\"")] := by
    apply quiet_singleton
    simp only [Piece.quiet, List.all_append, Bool.and_eq_true, List.all_eq_true]
    refine ⟨⟨List.all_eq_true.mp rfl, fun c hc => ?_⟩, List.all_eq_true.mp rfl⟩
    have := link.escaped c hc
    simp [isPlain, this]
  have hf : Quiet [.control "field" none] := quiet_of_all rfl
  have hin : Quiet [.control "*" none, .control "fldinst" none] := quiet_of_all rfl
  have hr : Quiet [.control "fldrslt" none, .raw (ascii " ")] := quiet_of_all rfl
  have ho : Amounts braces (render [.openBrace]) [1] := amounts_opening
  have hcl : Amounts braces (render [.closeBrace]) [-1] := amounts_closing
  have h := ho.append (hf.amounts.append (ho.append (hin.amounts.append (hu.amounts.append
    (hcl.append (ho.append hr.amounts))))))
  simp only [← render_append] at h
  exact h.congr rfl rfl

theorem amounts_addAttribute (env : Environment C) (attributesOfLastRun : List (Attribute C))
    (context : Context C) (attr : Attribute C) :
    Amounts braces (render (addAttribute env attributesOfLastRun context attr).1) (addChanges env context attr) := by
  cases attr with
  | paragraphStyle style => exact (quiet_paragraphStyle _ _).amounts
  | font font => exact (quiet_fontPieces _ _ _).amounts
  | foregroundColor color =>
    by_cases h : color = env.textColor
    · simp only [addAttribute, if_pos h]
      exact quiet_nil.amounts
    · simp only [addAttribute, if_neg h]
      exact Quiet.amounts (quiet_singleton rfl)
  | backgroundColor color =>
    by_cases h : color = env.textBackgroundColor
    · simp only [addAttribute, if_pos h]
      exact quiet_nil.amounts
    · simp only [addAttribute, if_neg h]
      exact Quiet.amounts (quiet_singleton rfl)
  | underlineColor color => exact Quiet.amounts (quiet_singleton rfl)
  | underlineStyle styleMask => exact (quiet_underlinePieces _).amounts
  | superscript value => exact (quiet_superscriptPieces _).amounts
  | baselineOffset value => exact (quiet_baselinePieces _).amounts
  | ligature value => exact Quiet.amounts (quiet_singleton rfl)
  | attachment attachment => exact amounts_attachmentPieces env context attachment
  | link link => exact amounts_linkPieces link
  | other name value => exact quiet_nil.amounts

theorem amounts_addAttributes (env : Environment C) (attributesOfLastRun attributes : List (Attribute C))
    (context : Context C) : Amounts braces (render (addAttributes env attributesOfLastRun context attributes).1)
      (addedChanges env attributesOfLastRun context attributes) := by
  induction attributes generalizing context with
  | nil => exact amounts_nil
  | cons attr attributes ih =>
    have h := (amounts_addAttribute env attributesOfLastRun context attr).append
      (ih (addAttribute env attributesOfLastRun context attr).2)
    rw [← render_append] at h
    exact h

/-! ## Characters -/

section

omit [DecidableEq C]

theorem amounts_rtfCharacter (uc_flagged : Bool) (c : Nat) :
    Amounts braces (rtfCharacter uc_flagged c).1 (if c = NSAttachmentCharacter then [-1] else []) := by
  have hh : ∀ x ∈ hexByte c, c < 0xFF → Plain braces x := by
    intro x hx hc
    unfold hexByte hexDigit at hx
    simp only [List.mem_cons, List.not_mem_nil, or_false] at hx
    obtain rfl | rfl := hx <;> refine ⟨?_, ?_, ?_⟩ <;> simp only [braces] <;> split_ifs <;> omega
  have hn (hc : c < 0xFF) : (if c = NSAttachmentCharacter then [-1] else []) = ([] : List Int) := by
    unfold NSAttachmentCharacter
    rw [if_neg (by omega)]
  unfold rtfCharacter
  by_cases hasc : c < 0x80
  · rw [if_pos hasc, hn (by omega)]
    -- the characters with a command, the last three of them the marks themselves
    by_cases h92 : c = 92
    · rw [if_pos h92]
      exact ⟨rfl, rfl, rfl⟩
    · by_cases h123 : c = 123
      · subst h123
        exact ⟨rfl, rfl, rfl⟩
      · by_cases h125 : c = 125
        · subst h125
          exact ⟨rfl, rfl, rfl⟩
        · have hr : Amounts braces [c] [] := amounts_plain fun x hx => by
            rw [List.mem_singleton.mp hx]
            exact ⟨h92, h123, h125⟩
          split_ifs <;> first
            | exact hr
            | exact ⟨rfl, rfl, rfl⟩
  · rw [if_neg hasc]
    by_cases hl : c < 0xFF
    · rw [if_pos hl, hn hl]
      exact amounts_escape (m := braces) 39 fun x hx => hh x hx hl
    · rw [if_neg hl]
      by_cases ha : c = NSAttachmentCharacter
      · rw [if_pos ha, if_pos ha]
        exact ⟨rfl, rfl, rfl⟩
      · rw [if_neg ha, if_neg ha]
        have hcmd : Amounts braces (ascii "\\u" ++ decimal (short c) ++ ascii " ") [] := by
          refine amounts_escape (m := braces) 117 fun x hx => ?_
          obtain hx | hx := List.mem_append.mp hx
          · exact decimal_plain _ x hx
          · rw [List.mem_singleton.mp hx]
            exact plain_of_isPlain rfl
        have hf : Amounts braces (ascii "\\uc0 ") [] := ⟨rfl, rfl, rfl⟩
        cases uc_flagged with
        | true => exact hcmd
        | false => exact hf.append hcmd

theorem amounts_characters (string : List Nat) :
    Amounts braces (stringWithRTFCharacters string) (characterChanges string) := by
  have h (uc_flagged : Bool) : Amounts braces (rtfCharacters uc_flagged string) (characterChanges string) := by
    induction string generalizing uc_flagged with
    | nil => exact amounts_nil
    | cons c string ih => exact (amounts_rtfCharacter uc_flagged c).append (ih _)
  exact h false

/-! ## Runs -/

theorem quiet_delimiter (pieces : List Piece) : Quiet (delimiter pieces) := by
  unfold delimiter
  split
  · exact quiet_nil
  · exact .ite (quiet_singleton rfl) quiet_nil

end

theorem amounts_runString (env : Environment C) (attributesOfLastRun : List (Attribute C))
    (context : Context C) (run : AttributedRun C) :
    Amounts braces (render (runString env attributesOfLastRun context run).1)
      (runChanges env attributesOfLastRun context run) := by
  have hr : Amounts braces
      (render ((attributesToRemove env attributesOfLastRun run.attributes).flatMap removeAttribute))
      ((attributesToRemove env attributesOfLastRun run.attributes).flatMap removeChanges) := by
    rw [render, List.flatMap_assoc]
    exact amounts_flatMap _ fun attr _ => amounts_removeAttribute attr
  have ha := amounts_addAttributes env attributesOfLastRun
    (attributesToAdd env attributesOfLastRun run.attributes) context
  have hs : Amounts braces (render [.characters run.string]) (characterChanges run.string) := by
    have h := (amounts_characters run.string).append amounts_nil
    rw [List.append_nil (characterChanges run.string)] at h
    exact h
  have h := ((hr.append ha).append (quiet_delimiter
    ((attributesToRemove env attributesOfLastRun run.attributes).flatMap removeAttribute ++
      (addAttributes env attributesOfLastRun context
        (attributesToAdd env attributesOfLastRun run.attributes)).1)).amounts).append hs
  rw [List.append_nil, ← render_append, ← render_append, ← render_append] at h
  exact h

theorem amounts_bodyString (env : Environment C) (attributesOfLastRun : List (Attribute C))
    (context : Context C) (runs : List (AttributedRun C)) :
    Amounts braces (render (bodyString env attributesOfLastRun context runs).1)
      (bodyChanges env attributesOfLastRun context runs) := by
  induction runs generalizing attributesOfLastRun context with
  | nil => exact amounts_nil
  | cons run runs ih =>
    have h := (amounts_runString env attributesOfLastRun context run).append
      (ih run.attributes (runString env attributesOfLastRun context run).2)
    rw [← render_append] at h
    exact h

theorem quiet_documentAttributes (docDict : Option DocumentAttributes) : Quiet (documentAttributes docDict) := by
  have hm {α : Type} (f : α → Piece) (hf : ∀ x, (f x).quiet = true) (o : Option α) : Quiet (o.map f).toList := by
    cases o with
    | none => exact quiet_nil
    | some x => exact quiet_singleton (hf x)
  cases docDict with
  | none => exact quiet_nil
  | some dict =>
    have hh : Quiet ((dict.hyphenationFactor.map fun factor =>
        [Piece.control "hyphauto" (some 1),
          .control "hyphfactor" (some (toShort (points2twips factor) * 5))]).getD []) := by
      cases dict.hyphenationFactor with
      | none => exact quiet_nil
      | some factor => exact quiet_of_all rfl
    unfold documentAttributes
    exact ((((((((((hm _ (fun _ => rfl) _).append (hm _ (fun _ => rfl) _)).append
      (hm _ (fun _ => rfl) _)).append (hm _ (fun _ => rfl) _)).append (hm _ (fun _ => rfl) _)).append
      (hm _ (fun _ => rfl) _)).append (hm _ (fun _ => rfl) _)).append (hm _ (fun _ => rfl) _)).append
      (hm _ (fun _ => rfl) _)).append (hm _ (fun _ => rfl) _)).append hh

theorem amounts_table {s : List Int} (h : Amounts braces (render pieces) s) :
    Amounts braces (render (.openBrace :: (pieces ++ [.closeBrace, .raw (ascii "\n")]))) (1 :: (s ++ [-1])) := by
  have hc : Amounts braces (render [.closeBrace]) [-1] := amounts_closing
  have hl : Quiet [.raw (ascii "\n")] := quiet_of_all rfl
  have he := hc.append hl.amounts
  rw [List.append_nil, ← render_append] at he
  rw [render_cons, render_append]
  exact (amounts_opening (m := braces)).append (h.append he)

section

omit [DecidableEq C]

theorem amounts_fontTable (context : Context C) :
    Amounts braces (render (fontTable context)) (headerChanges context) := by
  have hfn (fontName : List Nat) : Amounts braces (render [(fontToken context fontName).1,
      .control ("f" ++ fontFamily fontName) none, .raw (ascii " " ++ (fontName ++ ascii ";"))])
      (nameChanges fontName) := by
    have hq : Quiet [(fontToken context fontName).1, .control ("f" ++ fontFamily fontName) none] := by
      refine (quiet_singleton rfl).append (quiet_singleton ?_)
      unfold fontFamily
      split_ifs <;> rfl
    exact amounts_quiet_name hq fontName (c := 59) rfl
  have hs : Quiet [.control "fonttbl" none] := quiet_of_all rfl
  unfold fontTable headerChanges
  split
  · exact amounts_nil
  · have hf : Amounts braces (render ((context.fonts.mergeSort precedes).flatMap fun fontName =>
        [(fontToken context fontName).1, .control ("f" ++ fontFamily fontName) none,
          .raw (ascii " " ++ (fontName ++ ascii ";"))]))
        ((context.fonts.mergeSort precedes).flatMap nameChanges) := by
      rw [render, List.flatMap_assoc]
      exact amounts_flatMap _ fun fontName _ => hfn fontName
    have h := hs.amounts.append hf
    rw [← render_append] at h
    exact amounts_table h

theorem amounts_colorTable (env : Environment C) (context : Context C) :
    Amounts braces (render (colorTable env context)) [] := by
  have hs : Quiet [.control "colortbl" none, .raw (ascii ";")] := quiet_of_all rfl
  unfold colorTable
  split
  · exact amounts_nil
  · refine (amounts_table (hs.append (quiet_flatMap context.colors fun color => ?_)).amounts).congr rfl rfl
    obtain ⟨red, green, blue⟩ := env.components color
    exact quiet_of_all rfl

theorem amounts_headerString (env : Environment C) (context : Context C) :
    ∃ header, headerString env context = .openBrace :: header ∧
      Amounts braces (render header) (headerChanges context) := by
  have hs : Quiet [.control "rtf" (some 1), .control "ansi" none, .control "ansicpg" (some 1252),
    .control "cocoartf" (some 102)] := quiet_of_all rfl
  refine ⟨_, rfl, ?_⟩
  have h := ((hs.amounts.append (amounts_fontTable context)).append (amounts_colorTable env context)).append
    (quiet_documentAttributes env.docDict).amounts
  rw [List.append_nil, List.append_nil, List.nil_append, ← render_append, ← render_append, ← render_append] at h
  exact h

end

theorem amounts_document (env : Environment C) (runs : List (AttributedRun C)) :
    ∃ l, render (RTFDString env runs) = braces.opening :: (l ++ [braces.closing]) ∧
      Amounts braces l (documentChanges env runs) := by
  obtain ⟨header, hh, ha⟩ := amounts_headerString env (bodyString env [] ⟨[], [], [], 0⟩ runs).2
  refine ⟨_, ?_, ha.append (amounts_bodyString env [] ⟨[], [], [], 0⟩ runs)⟩
  change render (headerString env _ ++ _ ++ trailerString) = _
  rw [hh, render_append, List.cons_append, render_cons, render_append]
  rfl

/-- A document is balanced exactly where the count does not go below zero and comes back to it. -/
theorem document_balanced_iff (env : Environment C) (runs : List (AttributedRun C)) :
    Balanced braces (render (RTFDString env runs)) ↔
      0 ≤ low (documentChanges env runs) ∧ (documentChanges env runs).sum = 0 := by
  obtain ⟨l, hd, ha⟩ := amounts_document env runs
  rw [hd]
  exact balanced_iff ha

end Attributes

def someEnvironment : Environment Nat where
  enumerate := id
  textColor := 0
  textBackgroundColor := 1
  components _ := (0, 0, 0)
  ASCIIfied := id
  lastPathComponent := id
  docDict := none

def someLink : Link where
  id := 0
  absoluteString := ascii "http://a"
  escaped := by decide

/-- The braces of a link in the last run are not closed. -/
theorem last_link_not_balanced : ∃ (env : Environment Nat) (runs : List (AttributedRun Nat)),
    ¬Balanced braces (render (RTFDString env runs)) := by
  refine ⟨someEnvironment, [⟨[97], [.link someLink]⟩], fun h => ?_⟩
  obtain ⟨l, hd, ha⟩ := amounts_document someEnvironment [⟨[97], [.link someLink]⟩]
  rw [hd] at h
  have hs := ((balanced_iff ha).mp h).2
  exact absurd hs (by decide)

end GnustepGui.RTF.RTFProducer
