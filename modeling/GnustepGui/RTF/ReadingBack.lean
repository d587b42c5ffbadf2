import GnustepGui.RTF.Fitting
import GnustepGui.RTF.Balance

/-!
# Reading a body back

Before each run the formatting in force is that of the run before, and where that run has a link the two
groups of the link are open (`Stands`). A run that fits keeps this, and one that does not fit is read with
something else (`formatting_read_iff`).
-/

namespace GnustepGui.RTF.RTFProducer

open Settings

variable {C : Type*}

/-! ## The blank behind the commands -/

/-- A piece that may be the last one before the text. -/
def Piece.ends : Piece → Bool
  | control word _ => (ascii word).getLast?.any fun c => c ≠ 125 && c ≠ 32
  | closeBrace => true
  | raw units => units.getLast? = some 32
  | _ => false

def Ended (pieces : List Piece) : Prop :=
  ∀ piece, pieces.getLast? = some piece → piece.ends = true

theorem ended_nil : Ended [] := by
  intro piece h
  cases h

theorem Ended.append {pieces pieces' : List Piece} (h : Ended pieces) (h' : Ended pieces') :
    Ended (pieces ++ pieces') := by
  intro piece hl
  rw [List.getLast?_append] at hl
  cases hc : pieces'.getLast? with
  | none =>
    rw [hc, Option.none_or] at hl
    exact h piece hl
  | some last =>
    rw [hc, Option.some_or] at hl
    exact h' piece (hc.trans hl)

theorem ended_singleton {piece : Piece} (h : piece.ends = true) : Ended [piece] := by
  intro piece' hl
  rw [← Option.some.inj hl]
  exact h

theorem Ended.ite {p : Prop} [Decidable p] {pieces pieces' : List Piece} (h : Ended pieces) (h' : Ended pieces') :
    Ended (if p then pieces else pieces') := by
  split
  · exact h
  · exact h'

theorem digit_of_mem_decimal {n : Int} {c : Nat} (h : c ∈ decimal n) : 45 ≤ c ∧ c ≤ 57 := by
  have hdg (k : Nat) : ∀ c ∈ (Nat.digits 10 k).reverse.map (48 + ·), 45 ≤ c ∧ c ≤ 57 := by
    intro c hc
    obtain ⟨d, hd, rfl⟩ := List.mem_map.mp hc
    have hlt := Nat.digits_lt_base (by decide : 1 < 10) (List.mem_reverse.mp hd)
    omega
  unfold decimal at h
  split at h
  · rw [List.mem_singleton.mp h]
    omega
  · split at h
    · obtain rfl | h := List.mem_cons.mp h
      · omega
      · exact hdg _ c h
    · exact hdg _ c h

/-- A command does not end with a brace or a blank. -/
theorem getLast?_render_control {word : String} {parameter : Option Int}
    (h : (Piece.control word parameter).ends = true) :
    ∃ c, (Piece.control word parameter).render.getLast? = some c ∧ c ≠ 125 ∧ c ≠ 32 := by
  obtain ⟨c, hc, hne⟩ : ∃ c, (ascii word).getLast? = some c ∧ c ≠ 125 ∧ c ≠ 32 := by
    cases hl : (ascii word).getLast? with
    | none =>
      rw [Piece.ends, hl] at h
      cases h
    | some c =>
      rw [Piece.ends, hl, Option.any_some, Bool.and_eq_true] at h
      exact ⟨c, rfl, of_decide_eq_true h.1, of_decide_eq_true h.2⟩
  have hw : (92 :: ascii word).getLast? = some c := by
    rw [List.getLast?_cons, hc]
    rfl
  have hr : (Piece.control word parameter).render = (92 :: ascii word) ++ (parameter.map decimal).getD [] := rfl
  rw [hr, List.getLast?_append, hw]
  cases hl : ((parameter.map decimal).getD []).getLast? with
  | none => exact ⟨c, rfl, hne⟩
  | some d =>
    refine ⟨d, rfl, ?_⟩
    cases parameter with
    | none => cases hl
    | some n =>
      have := digit_of_mem_decimal (List.mem_of_getLast? hl)
      omega

theorem delimiter_eq {pieces : List Piece} (h : Ended pieces) :
    delimiter pieces = if commandBehind false pieces then [.raw (ascii " ")] else [] := by
  cases hl : pieces.getLast? with
  | none =>
    rw [List.getLast?_eq_none_iff.mp hl]
    rfl
  | some piece =>
    obtain ⟨before, rfl⟩ := List.getLast?_eq_some_iff.mp hl
    have he := h piece hl
    have hcmd : commandBehind false (before ++ [piece]) = piece.isCommand := by
      rw [commandBehind, hl]
      rfl
    have hr {c : Nat} (hc : piece.render.getLast? = some c) : (render (before ++ [piece])).getLast? = some c := by
      rw [render_append, List.getLast?_append]
      have hs : render [piece] = piece.render := List.append_nil _
      rw [hs, hc]
      rfl
    rw [hcmd]
    cases piece with
    | control word parameter =>
      obtain ⟨c, hc, hne⟩ := getLast?_render_control he
      rw [delimiter, hr hc]
      exact if_pos hne
    | closeBrace =>
      rw [delimiter, hr (c := 125) rfl]
      rfl
    | raw units =>
      rw [delimiter, hr (c := 32) (of_decide_eq_true he)]
      rfl
    | _ => cases he

theorem run_delimiter (tables : Context C) {pieces : List Piece} (h : Ended pieces) (s : Reading C)
    (hs : s.scope.instruction = false) : s.run tables (commandBehind false pieces) (delimiter pieces) = (s, []) ∧
      commandBehind (commandBehind false pieces) (delimiter pieces) = false := by
  rw [delimiter_eq h]
  cases commandBehind false pieces with
  | false => exact ⟨rfl, rfl⟩
  | true =>
    refine ⟨?_, rfl⟩
    have hb : (ascii " ").head? = some 32 ∧ (ascii " ").tail = [] := ⟨rfl, rfl⟩
    simp [Reading.run, Reading.step, Reading.text, hb, hs]

/-! ## The text of a run -/

def styled (s : Reading C) (string : List Nat) : List (Styled C) :=
  string.map fun c => ⟨c, s.scope.formatting, s.scope.link⟩

theorem text_eq {s : Reading C} (hs : s.scope.instruction = false) (units : List Nat) :
    s.text units = (s, styled s units) := by
  rw [Reading.text, hs]
  rfl

theorem characters_of_notMem {s : Reading C} (hs : s.scope.instruction = false) {string : List Nat}
    (h : NSAttachmentCharacter ∉ string) : s.characters string = (s, styled s string) := by
  induction string with
  | nil => rfl
  | cons c string ih =>
    obtain ⟨hc, hstr⟩ := not_or.mp (mt List.mem_cons.mpr h)
    simp only [Reading.characters, if_neg (Ne.symm hc), text_eq hs, ih hstr]
    rfl

theorem characters_ne_of_mem {s : Reading C} (hs : s.scope.instruction = false) {string : List Nat}
    (h : NSAttachmentCharacter ∈ string) {f : Nat → Styled C} (hf : ∀ c, (f c).unit = c)
    (rest rest' : List (Styled C)) : (s.characters string).2 ++ rest ≠ string.map f ++ rest' := by
  induction string with
  | nil => cases h
  | cons c string ih =>
    by_cases hc : c = NSAttachmentCharacter
    · subst hc
      intro heq
      simp only [Reading.characters, if_true, text_eq hs] at heq
      have hu : 0xAC = NSAttachmentCharacter := (congrArg Styled.unit (List.cons.inj heq).1).trans (hf _)
      exact absurd hu (by decide)
    · have hstr := (List.mem_cons.mp h).resolve_left (Ne.symm hc)
      intro heq
      simp only [Reading.characters, if_neg hc, text_eq hs] at heq
      exact ih hstr (List.cons.inj heq).2

/-! ## Before a run -/

section Body

variable [DecidableEq C]

/-- The state between runs. Two groups are open where the last run has a link, and `base` is the formatting
where they begin. -/
structure Stands (env : Environment C) (attributesOfLastRun : List (Attribute C)) (base : Formatting C)
    (s : Reading C) : Prop where
  scope : s.scope = ⟨formatting env attributesOfLastRun, linkURL attributesOfLastRun, false⟩
  groups : s.groups = if hasLink attributesOfLastRun then [⟨base, none, false⟩, ⟨base, none, false⟩] else []

variable {env : Environment C} {attributesOfLastRun attributes : List (Attribute C)} {base : Formatting C}
  {s : Reading C}

variable {l : List (Attribute C)}

omit [DecidableEq C] in
theorem takeWhile_of_hasLink_eq_false (h : hasLink l = false) : ∀ attr ∈ l, attr.link? = none :=
  List.findSome?_eq_none_iff.mp (Option.isSome_eq_false_iff.mp h |> Option.isNone_iff_eq_none.mp)

omit [DecidableEq C] in
/-- A list with one link is split at it. -/
theorem eq_of_hasLink (h : hasLink l = true) (hon : Once Attribute.link? l) :
    ∃ link, l.findSome? Attribute.link? = some link ∧ l = beforeLink l ++ .link link :: behindLink l ∧
      (∀ attr ∈ beforeLink l, attr.link? = none) ∧ ∀ attr ∈ behindLink l, attr.link? = none := by
  induction l with
  | nil => cases h
  | cons attr l ih =>
    obtain ⟨hat, hl⟩ := List.pairwise_cons.mp hon
    cases hln : attr.link? with
    | some link =>
      have hat' := (selects_link.eq_some_iff attr link).mp hln
      subst hat'
      refine ⟨link, rfl, rfl, fun a ha => (nomatch ha), fun a ha => ?_⟩
      exact (hat a ha).resolve_left (by rw [hln]; exact Option.some_ne_none link)
    | none =>
      have hf : (attr :: l).findSome? Attribute.link? = l.findSome? Attribute.link? := by
        rw [List.findSome?_cons, hln]
      have hb : beforeLink (attr :: l) = attr :: beforeLink l := List.takeWhile_cons_of_pos (by rw [hln]; rfl)
      have hbhd : behindLink (attr :: l) = behindLink l := by
        rw [behindLink, List.dropWhile_cons_of_pos (by rw [hln]; rfl)]
        rfl
      rw [hasLink, hf] at h
      obtain ⟨link, hs, heq, hn, hn'⟩ := ih h hl
      refine ⟨link, hf.trans hs, ?_, ?_, ?_⟩
      · rw [hb, hbhd, List.cons_append, ← heq]
      · rw [hb]
        exact List.forall_mem_cons.mpr ⟨hln, hn⟩
      · rw [hbhd]
        exact hn'

/-! ## The commands of a run -/

theorem hasLink_attributesToRemove (he : ∀ l, (env.enumerate l).Perm l)
    (hl : (attributesOfLastRun.map Attribute.name).Nodup) (ha : (attributes.map Attribute.name).Nodup) :
    hasLink (attributesToRemove env attributesOfLastRun attributes) =
      (decide (attributesOfLastRun.findSome? Attribute.link? ≠ attributes.findSome? Attribute.link?) &&
        hasLink attributesOfLastRun) := by
  rw [hasLink, findSome?_attributesToRemove selects_link he hl ha, hasLink]
  split
  · rename_i heq
    rw [decide_eq_false (not_not_intro heq)]
    rfl
  · rename_i hne
    rw [decide_eq_true hne]
    rfl

theorem run_attributesToRemove (tables : Context C) (he : ∀ l, (env.enumerate l).Perm l)
    (hf : ∀ attr ∈ attributesOfLastRun, attr.formats = true)
    (hls : (attributesOfLastRun.map Attribute.name).Nodup) (ha : (attributes.map Attribute.name).Nodup)
    (hs : Stands env attributesOfLastRun base s) :
    ∃ s', s.run tables false ((attributesToRemove env attributesOfLastRun attributes).flatMap removeAttribute) =
        (s', []) ∧
      s'.scope = ⟨(resets (attributesToRemove env attributesOfLastRun attributes)).foldl Formatting.unset
          (restored (attributesToRemove env attributesOfLastRun attributes) base (formatting env attributesOfLastRun)),
        if hasLink (attributesToRemove env attributesOfLastRun attributes) then none
          else linkURL attributesOfLastRun, false⟩ ∧
      s'.groups = if hasLink (attributesToRemove env attributesOfLastRun attributes) then [] else s.groups := by
  have hr : ∀ attr ∈ attributesToRemove env attributesOfLastRun attributes, attr.formats = true := by
    intro attr hat
    exact hf attr (List.mem_filter.mp ((he _).mem_iff.mp hat)).1
  cases hl : hasLink (attributesToRemove env attributesOfLastRun attributes) with
  | false =>
    refine ⟨_, run_removeAttributes tables hr (takeWhile_of_hasLink_eq_false hl) s false, ?_, rfl⟩
    simp only [resets, restored, hl, Reading.format, hs.scope]
    rfl
  | true =>
    have hon := once_attributesToRemove attributes selects_link he hls
    obtain ⟨link, hsm, heq, hb, hbhd⟩ := eq_of_hasLink hl hon
    have ho : hasLink attributesOfLastRun = true := by
      rw [hasLink_attributesToRemove he hls ha, Bool.and_eq_true] at hl
      exact hl.2
    have hg := hs.groups
    rw [if_pos ho] at hg
    rw [heq] at hr
    have hfm (attr : Attribute C) (hat : attr ∈ beforeLink (attributesToRemove env attributesOfLastRun attributes)) :=
      hr attr (List.mem_append_left _ hat)
    have hfr (attr : Attribute C) (hat : attr ∈ behindLink (attributesToRemove env attributesOfLastRun attributes)) :=
      hr attr (List.mem_append_right _ (List.mem_cons_of_mem _ hat))
    have hrun := run_removeAttributes tables hfm hb s false
    rw [heq, List.flatMap_append, List.flatMap_cons, Reading.run_append_of_eq hrun]
    have hc := run_closeLink tables
      (s.format ((beforeLink (attributesToRemove env attributesOfLastRun attributes)).foldl Formatting.unset
        s.scope.formatting))
      (commandBehind false
        ((beforeLink (attributesToRemove env attributesOfLastRun attributes)).flatMap removeAttribute))
    refine ⟨_, (Reading.run_append_of_eq hc _).trans (run_removeAttributes tables hfr hbhd _ _), ?_, ?_⟩
    · rw [← heq, resets, if_pos hl, restored, if_pos hl]
      simp [Reading.format, Reading.closeGroup, hg]
    · simp [Reading.format, Reading.closeGroup, hg]

variable {tables context : Context C}

theorem run_attributesToAdd (he : ∀ l, (env.enumerate l).Perm l)
    (hf : ∀ attr ∈ attributes, attr.formats = true) (hatt : (attributes.map Attribute.name).Nodup)
    (ht : (addAttributes env attributesOfLastRun context
      (attributesToAdd env attributesOfLastRun attributes)).2.Within tables)
    (hs : s.scope.instruction = false) (command : Bool) :
    ∃ s', s.run tables command (addAttributes env attributesOfLastRun context
        (attributesToAdd env attributesOfLastRun attributes)).1 = (s', []) ∧
      s'.scope = ⟨(attributesToAdd env attributesOfLastRun attributes).foldl
          (Formatting.set env tables attributesOfLastRun) s.scope.formatting,
        if hasLink (attributesToAdd env attributesOfLastRun attributes) then
          linkURL (attributesToAdd env attributesOfLastRun attributes) else s.scope.link, false⟩ ∧
      s'.groups = if hasLink (attributesToAdd env attributesOfLastRun attributes) then
        let scope : Scope C := ⟨(beforeLink (attributesToAdd env attributesOfLastRun attributes)).foldl
          (Formatting.set env tables attributesOfLastRun) s.scope.formatting, s.scope.link, false⟩
        scope :: scope :: s.groups else s.groups := by
  have ha : ∀ attr ∈ attributesToAdd env attributesOfLastRun attributes, attr.formats = true := by
    intro attr hat
    exact hf attr (List.mem_filter.mp ((he _).mem_iff.mp hat)).1
  have hon := once_attributesToAdd attributesOfLastRun selects_link he hatt
  revert ht ha hon
  generalize attributesToAdd env attributesOfLastRun attributes = added
  intro ht ha hon
  cases hl : hasLink added with
  | false =>
    refine ⟨_, run_addAttributes env attributesOfLastRun ha (takeWhile_of_hasLink_eq_false hl) ht s command, ?_, rfl⟩
    simp [Reading.format, hs]
  | true =>
    obtain ⟨link, hsm, heq, hbef, hbhd⟩ := eq_of_hasLink hl hon
    have hu : linkURL added = some link.absoluteString := by
      rw [linkURL, hsm]
      rfl
    have hfl : added.foldl (Formatting.set env tables attributesOfLastRun) s.scope.formatting =
        (behindLink added).foldl (Formatting.set env tables attributesOfLastRun)
          ((beforeLink added).foldl (Formatting.set env tables attributesOfLastRun) s.scope.formatting) := by
      conv_lhs => rw [heq, List.foldl_append, List.foldl_cons]
      rfl
    have hb (attr : Attribute C) (hat : attr ∈ behindLink added) := ha attr ((behindLink_sublist added).mem hat)
    have hbe (attr : Attribute C) (hat : attr ∈ beforeLink added) := ha attr ((List.takeWhile_sublist _).mem hat)
    have happ := addAttributes_append env attributesOfLastRun context (beforeLink added)
      (.link link :: behindLink added)
    rw [← heq] at happ
    have hbh : (addAttributes env attributesOfLastRun
        (addAttributes env attributesOfLastRun context (beforeLink added)).2 (behindLink added)).2.Within tables := by
      rw [happ] at ht
      exact ht
    have hbf := (addAttributes_within env attributesOfLastRun
      (addAttributes env attributesOfLastRun context (beforeLink added)).2 hb).trans hbh
    have hr := run_addAttributes env attributesOfLastRun hbe hbef hbf s command
    have hrl (command : Bool) := run_linkPieces tables link
      (s.format ((beforeLink added).foldl (Formatting.set env tables attributesOfLastRun) s.scope.formatting)) command hs
    rw [happ]
    refine ⟨_, (Reading.run_append_of_eq hr _).trans ((Reading.run_append_of_eq (hrl _) _).trans
      (run_addAttributes env attributesOfLastRun hb hbhd hbh _ _)), ?_, ?_⟩
    · rw [hfl, if_pos rfl, hu]
      simp [Reading.format, Reading.openLink, hs]
    · simp [Reading.format, Reading.openLink, hs]

omit [DecidableEq C] in
theorem ended_flatMap {β : Type*} {f : β → List Piece} {l : List β} (h : ∀ x ∈ l, Ended (f x)) :
    Ended (l.flatMap f) := by
  induction l with
  | nil => exact ended_nil
  | cons x l ih =>
    rw [List.flatMap_cons]
    exact (h x List.mem_cons_self).append (ih fun y hy => h y (List.mem_cons_of_mem _ hy))

variable {attr : Attribute C}

omit [DecidableEq C] in
theorem ended_removeAttribute (h : attr.formats = true) : Ended (removeAttribute attr) := by
  cases attr with
  | font font => exact ended_nil
  | foregroundColor color => exact ended_singleton (by decide)
  | backgroundColor color => exact ended_singleton (by decide)
  | underlineStyle styleMask => exact ended_singleton (by decide)
  | link link => exact (ended_singleton rfl).append (ended_singleton rfl)
  | _ => cases h

theorem ended_underlinePieces (styleMask : Nat) : Ended (underlinePieces styleMask) := by
  unfold underlinePieces
  refine .append (.ite (ended_singleton (by decide)) ended_nil) (ended_singleton ?_)
  split_ifs <;> decide

theorem ended_addAttribute (context : Context C) (h : attr.formats = true) :
    Ended (addAttribute env attributesOfLastRun context attr).1 := by
  cases attr with
  | font font =>
    exact ((Ended.ite ended_nil (ended_singleton rfl)).append (.ite ended_nil (ended_singleton rfl))).append
      (.ite ended_nil (ended_singleton rfl)) |>.append (.ite ended_nil (ended_singleton rfl))
  | foregroundColor color =>
    simp only [addAttribute]
    split
    · exact ended_nil
    · exact ended_singleton rfl
  | backgroundColor color =>
    simp only [addAttribute]
    split
    · exact ended_nil
    · exact ended_singleton rfl
  | underlineStyle styleMask => exact ended_underlinePieces styleMask
  | link link =>
    intro piece hl
    rw [← Option.some.inj hl]
    rfl
  | _ => cases h

theorem ended_addAttributes (context : Context C) (h : ∀ attr ∈ l, attr.formats = true) :
    Ended (addAttributes env attributesOfLastRun context l).1 := by
  induction l generalizing context with
  | nil => exact ended_nil
  | cons attr l ih =>
    simp only [addAttributes]
    exact (ended_addAttribute context (h attr List.mem_cons_self)).append
      (ih _ fun a ha => h a (List.mem_cons_of_mem _ ha))

theorem hasLink_attributesToAdd (he : ∀ l, (env.enumerate l).Perm l)
    (hl : (attributesOfLastRun.map Attribute.name).Nodup) (ha : (attributes.map Attribute.name).Nodup) :
    hasLink (attributesToAdd env attributesOfLastRun attributes) =
      (decide (attributesOfLastRun.findSome? Attribute.link? ≠ attributes.findSome? Attribute.link?) &&
        hasLink attributes) := by
  rw [hasLink, findSome?_attributesToAdd selects_link he hl ha, hasLink]
  split
  · rename_i heq
    rw [decide_eq_false (not_not_intro heq.symm)]
    rfl
  · rename_i hne
    rw [decide_eq_true (Ne.symm hne)]
    rfl

theorem linkURL_behind (he : ∀ l, (env.enumerate l).Perm l)
    (hls : (attributesOfLastRun.map Attribute.name).Nodup) (ha : (attributes.map Attribute.name).Nodup) :
    (if hasLink (attributesToAdd env attributesOfLastRun attributes) then
        linkURL (attributesToAdd env attributesOfLastRun attributes)
      else if hasLink (attributesToRemove env attributesOfLastRun attributes) then none
      else linkURL attributesOfLastRun) = linkURL attributes := by
  have hadd := findSome?_attributesToAdd selects_link he hls ha
  have hr := findSome?_attributesToRemove selects_link he hls ha
  simp only [hasLink, linkURL, hadd, hr]
  by_cases hs : attributes.findSome? Attribute.link? = attributesOfLastRun.findSome? Attribute.link?
  · rw [if_pos hs, if_pos hs.symm, hs]
    rfl
  · rw [if_neg hs, if_neg (Ne.symm hs)]
    cases hln : attributes.findSome? Attribute.link? with
    | some link => rfl
    | none =>
      cases hl : attributesOfLastRun.findSome? Attribute.link? with
      | some link => rfl
      | none => rfl

/-- The formatting where the open link begins, as it is read. -/
def baseRead (env : Environment C) (tables : Context C) (attributesOfLastRun attributes : List (Attribute C))
    (base : Formatting C) : Formatting C :=
  let removed := attributesToRemove env attributesOfLastRun attributes
  let added := attributesToAdd env attributesOfLastRun attributes
  if hasLink added then
    (beforeLink added).foldl (Formatting.set env tables attributesOfLastRun)
      ((resets removed).foldl Formatting.unset (restored removed base (formatting env attributesOfLastRun)))
  else base

variable {run : AttributedRun C}

/-- The link and the open groups are those of the run, whatever the formatting is. -/
theorem run_runString (he : ∀ l, (env.enumerate l).Perm l)
    (hf : ∀ attr ∈ attributesOfLastRun, attr.formats = true)
    (hls : (attributesOfLastRun.map Attribute.name).Nodup) (hr : Formatted run)
    (ht : (runString env attributesOfLastRun context run).2.Within tables)
    (hs : Stands env attributesOfLastRun base s) :
    ∃ s' : Reading C, s.run tables false (runString env attributesOfLastRun context run).1 = s'.characters run.string ∧
      s'.scope = ⟨formattingRead env tables attributesOfLastRun run.attributes
          (restored (attributesToRemove env attributesOfLastRun run.attributes) base
            (formatting env attributesOfLastRun)), linkURL run.attributes, false⟩ ∧
      s'.groups = if hasLink run.attributes then
        [⟨baseRead env tables attributesOfLastRun run.attributes base, none, false⟩,
          ⟨baseRead env tables attributesOfLastRun run.attributes base, none, false⟩] else [] := by
  obtain ⟨s₁, hr₁, hsc₁, hg₁⟩ := run_attributesToRemove tables he hf hls hr.distinct hs
  have hi₁ : s₁.scope.instruction = false := by rw [hsc₁]
  obtain ⟨s₂, hr₂, hsc₂, hg₂⟩ := run_attributesToAdd
    he hr.formats hr.distinct ht hi₁
    (commandBehind false ((attributesToRemove env attributesOfLastRun run.attributes).flatMap removeAttribute))
  have hrmd : ∀ attr ∈ attributesToRemove env attributesOfLastRun run.attributes, attr.formats = true := by
    intro attr hat
    exact hf attr (List.mem_filter.mp ((he _).mem_iff.mp hat)).1
  have ha : ∀ attr ∈ attributesToAdd env attributesOfLastRun run.attributes, attr.formats = true := by
    intro attr hat
    exact hr.formats attr (List.mem_filter.mp ((he _).mem_iff.mp hat)).1
  have hed : Ended ((attributesToRemove env attributesOfLastRun run.attributes).flatMap removeAttribute ++
      (addAttributes env attributesOfLastRun context (attributesToAdd env attributesOfLastRun run.attributes)).1) :=
    (ended_flatMap fun attr hat => ended_removeAttribute (hrmd attr hat)).append
      (ended_addAttributes context ha)
  have hc := (Reading.run_append_of_eq hr₁ _).trans hr₂
  have hi₂ : s₂.scope.instruction = false := by rw [hsc₂]
  obtain ⟨hd, hcmd⟩ := run_delimiter tables hed s₂ hi₂
  refine ⟨s₂, ?_, ?_, ?_⟩
  · simp only [runString]
    rw [List.append_assoc, Reading.run_append_of_eq hc, Reading.run_append_of_eq hd, hcmd]
    simp [Reading.run, Reading.step]
  · rw [hsc₂, hsc₁]
    exact congrArg (Scope.mk _ · false) (linkURL_behind he hls hr.distinct)
  · rw [hg₂, hg₁, hsc₁, hs.groups, baseRead, hasLink_attributesToAdd he hls hr.distinct,
      hasLink_attributesToRemove he hls hr.distinct]
    by_cases hsm : attributesOfLastRun.findSome? Attribute.link? = run.attributes.findSome? Attribute.link?
    · have hln : hasLink run.attributes = hasLink attributesOfLastRun := by rw [hasLink, hasLink, hsm]
      simp [hsm, hln]
    · have hu (h : hasLink attributesOfLastRun = false) : linkURL attributesOfLastRun = none := by
        rw [linkURL, Option.isNone_iff_eq_none.mp (Option.isSome_eq_false_iff.mp h)]
        rfl
      cases hln : hasLink run.attributes with
      | false =>
        cases hl : hasLink attributesOfLastRun with
        | false => simp
        | true => simp [hsm]
      | true =>
        cases hl : hasLink attributesOfLastRun with
        | false => simp [hsm, hu hl]
        | true => simp [hsm]

theorem value_of_mem_attributesToAdd {ν : Type*} [DecidableEq ν] {p : Attribute C → Option ν} {make : ν → Attribute C}
    (h : Selects p make) (he : ∀ l, (env.enumerate l).Perm l)
    (hl : (attributesOfLastRun.map Attribute.name).Nodup) (hatt : (attributes.map Attribute.name).Nodup)
    {value : ν} (hv : make value ∈ attributesToAdd env attributesOfLastRun attributes) :
    attributes.findSome? p = some value ∧ attributesOfLastRun.findSome? p ≠ some value := by
  have ha := (once_attributesToAdd attributesOfLastRun h he
    hatt).findSome?_eq_some hv ((h.eq_some_iff _ _).mpr rfl)
  rw [findSome?_attributesToAdd h he hl hatt] at ha
  split at ha
  · cases ha
  · rename_i hne
    exact ⟨ha, fun heq => hne (ha.trans heq.symm)⟩

theorem set_eq_apply (tables : Context C) (he : ∀ l, (env.enumerate l).Perm l)
    (hls : (attributesOfLastRun.map Attribute.name).Nodup) (hr : Formatted run)
    {reset : List (Attribute C)} {inForce : Formatting C}
    (hft : RunFits env tables attributesOfLastRun reset inForce run)
    (ha : attr ∈ attributesToAdd env attributesOfLastRun run.attributes) (s : Formatting C) :
    s.set env tables attributesOfLastRun attr = s.apply env attributesOfLastRun attr := by
  cases attr with
  | font font =>
    obtain ⟨hfn, -⟩ := value_of_mem_attributesToAdd selects_font he hls hr.distinct ha
    have hf := hft.family.written font hfn
    have hs := fun h => (half_toShort_eq_iff font.pointSize).mpr (hft.size.written font hfn h)
    have hl : lastFont attributesOfLastRun = attributesOfLastRun.findSome? Attribute.font? := rfl
    simp only [FamilyFits] at hf
    simp only [Formatting.set, Formatting.apply, hl]
    congr 1
    · split
      · rfl
      · rename_i hne
        exact hf hne
    · split
      · rfl
      · rename_i hne
        exact congrArg some (hs hne)
  | foregroundColor color =>
    obtain ⟨hc, hne⟩ := value_of_mem_attributesToAdd selects_foreground he hls hr.distinct ha
    by_cases hd : color = env.textColor
    · simp only [Formatting.set, Formatting.apply, if_pos hd]
    · have hn := (colorNumbered_eq_iff tables color).mpr (hft.foreground.written color hc hne hd)
      simp only [Formatting.set, Formatting.apply, if_neg hd, hn]
  | backgroundColor color =>
    obtain ⟨hc, hne⟩ := value_of_mem_attributesToAdd selects_background he hls hr.distinct ha
    by_cases hd : color = env.textBackgroundColor
    · simp only [Formatting.set, Formatting.apply, if_pos hd]
    · have hn := (colorNumbered_eq_iff tables color).mpr (hft.background.written color hc hne hd)
      simp only [Formatting.set, Formatting.apply, if_neg hd, hn]
  | underlineStyle styleMask =>
    obtain ⟨hst, hne⟩ := value_of_mem_attributesToAdd selects_underline he hls hr.distinct ha
    have hrd := (underlineRead_eq_iff styleMask).mpr (hft.underline.written styleMask hst hne)
    simp only [Formatting.set, Formatting.apply, hrd]
  | _ => rfl

variable (base) in
theorem baseRead_eq (tables : Context C) (he : ∀ l, (env.enumerate l).Perm l)
    (hl : (attributesOfLastRun.map Attribute.name).Nodup) (hr : Formatted run)
    {reset : List (Attribute C)} {inForce : Formatting C}
    (hf : RunFits env tables attributesOfLastRun reset inForce run) :
    baseRead env tables attributesOfLastRun run.attributes base =
      nextBase env attributesOfLastRun base run.attributes := by
  have hap : ∀ attr ∈ beforeLink (attributesToAdd env attributesOfLastRun run.attributes), ∀ s,
      Formatting.set env tables attributesOfLastRun s attr = s.apply env attributesOfLastRun attr := by
    intro attr ha s
    exact set_eq_apply tables he hl hr hf ((List.takeWhile_sublist _).mem ha) s
  unfold baseRead nextBase
  dsimp only
  rw [List.foldl_ext _ _ _ fun s attr ha => hap attr ha s]

variable (attributesOfLastRun) in
theorem bodyString_within (he : ∀ l, (env.enumerate l).Perm l) (context : Context C)
    {runs : List (AttributedRun C)} (hrn : ∀ run ∈ runs, Formatted run) :
    context.Within (bodyString env attributesOfLastRun context runs).2 := by
  induction runs generalizing attributesOfLastRun context with
  | nil => exact .refl context
  | cons run runs ih =>
    have ha : ∀ attr ∈ attributesToAdd env attributesOfLastRun run.attributes, attr.formats = true := by
      intro attr hat
      exact (hrn run List.mem_cons_self).formats attr (List.mem_filter.mp ((he _).mem_iff.mp hat)).1
    exact (addAttributes_within env attributesOfLastRun context ha).trans
      (ih _ _ fun r hr => hrn r (List.mem_cons_of_mem _ hr))

theorem run_bodyString (he : ∀ l, (env.enumerate l).Perm l) (hfmt : ∀ attr ∈ attributesOfLastRun, attr.formats = true)
    (hls : (attributesOfLastRun.map Attribute.name).Nodup) {runs : List (AttributedRun C)}
    (hrn : ∀ run ∈ runs, Formatted run) (ht : (bodyString env attributesOfLastRun context runs).2.Within tables)
    (hs : Stands env attributesOfLastRun base s) :
    (s.run tables false (bodyString env attributesOfLastRun context runs).1).2 = runs.flatMap (styledRun env) ↔
      RunsFit env tables attributesOfLastRun base runs := by
  induction runs generalizing attributesOfLastRun context base s with
  | nil => exact iff_of_true rfl trivial
  | cons run runs ih =>
    have hrun := hrn run List.mem_cons_self
    have hrs (r : AttributedRun C) (hr : r ∈ runs) := hrn r (List.mem_cons_of_mem _ hr)
    have hw := (bodyString_within run.attributes he
      (runString env attributesOfLastRun context run).2 hrs).trans ht
    obtain ⟨s', hru, hsc, hg⟩ := run_runString he hfmt hls hrun hw hs
    have hi : s'.scope.instruction = false := by rw [hsc]
    have hc : commandBehind false (runString env attributesOfLastRun context run).1 = false := by
      simp [runString, commandBehind, Piece.isCommand]
    have hrd : (s.run tables false (bodyString env attributesOfLastRun context (run :: runs)).1).2 =
        (s'.characters run.string).2 ++ ((s'.characters run.string).1.run tables false
          (bodyString env run.attributes (runString env attributesOfLastRun context run).2 runs).1).2 := by
      simp only [bodyString]
      rw [Reading.run_append, hru, hc]
    rw [hrd, List.flatMap_cons, RunsFit, runFits_iff tables he hls hrun]
    by_cases hat : NSAttachmentCharacter ∈ run.string
    · refine iff_of_false ?_ fun h => h.1.1 hat
      exact characters_ne_of_mem hi hat (fun _ => rfl) _ _
    · rw [characters_of_notMem hi hat]
      have hl : (styled s' run.string).length = (styledRun env run).length := by
        rw [styled, styledRun, List.length_map, List.length_map]
      have ha (rest rest' : List (Styled C)) : styled s' run.string ++ rest = styledRun env run ++ rest' ↔
          styled s' run.string = styledRun env run ∧ rest = rest' := by
        refine ⟨fun h => List.append_inj h hl, ?_⟩
        rintro ⟨hlf, hrt⟩
        rw [hlf, hrt]
      have hsty : styled s' run.string = styledRun env run ↔
          formattingRead env tables attributesOfLastRun run.attributes
            (restored (attributesToRemove env attributesOfLastRun run.attributes) base
              (formatting env attributesOfLastRun)) = formatting env run.attributes := by
        rw [styled, styledRun, hsc]
        constructor
        · intro h
          obtain ⟨c, string, hcn⟩ := List.exists_cons_of_ne_nil hrun.string_ne_nil
          rw [hcn] at h
          exact congrArg Styled.formatting (List.cons.inj h).1
        · intro h
          rw [h]
      rw [ha, hsty, and_assoc, and_iff_right hat]
      refine and_congr_right fun hf => ?_
      have hft := (runFits_iff tables he hls hrun _).mpr ⟨hat, hf⟩
      have hb := baseRead_eq base tables he hls hrun hft
      refine ih hrun.formats hrun.distinct hrs ht ⟨?_, ?_⟩
      · rw [hsc, hf]
      · rw [hg, hb]

/-- What a reader makes of the body, with the tables of the header. -/
def readBody (env : Environment C) (runs : List (AttributedRun C)) : List (Styled C) :=
  let (body, tables) := bodyString env [] ⟨[], [], [], 0⟩ runs
  (Reading.start.run tables false body).2

theorem stands_start (env : Environment C) (base : Formatting C) : Stands env [] base Reading.start := ⟨rfl, rfl⟩

/-- A body is read back with the formatting and the links of its runs exactly where every run fits. -/
theorem formatting_read_iff (henumerate : ∀ l, (env.enumerate l).Perm l) {runs : List (AttributedRun C)}
    (hruns : ∀ run ∈ runs, Formatted run) :
    readBody env runs = runs.flatMap (styledRun env) ↔
      RunsFit env (bodyString env [] ⟨[], [], [], 0⟩ runs).2 [] defaultFormatting runs :=
  run_bodyString henumerate (List.forall_mem_nil _) List.nodup_nil hruns (.refl _) (stands_start env _)

end Body

def someBoldFont : NSFont where
  fontName := ascii "Helvetica-Bold"
  familyName := ascii "Helvetica"
  pointSize := 12
  italic := false
  bold := true

/-- A run with a link in a bold font, and one in the same font without the link. -/
def someLinkedRuns : List (AttributedRun Nat) :=
  [⟨[97], [.link someLink, .font someBoldFont]⟩, ⟨[98], [.font someBoldFont]⟩]

theorem someLinkedRuns_formatted : ∀ run ∈ someLinkedRuns, Formatted run := by
  intro run hr
  obtain rfl | hr := List.mem_cons.mp hr
  · exact ⟨by decide, by decide, by decide⟩
  · rw [List.mem_singleton.mp hr]
    exact ⟨by decide, by decide, by decide⟩

theorem formatting_read_linked : readBody someEnvironment someLinkedRuns =
      someLinkedRuns.flatMap (styledRun someEnvironment) ↔
    RunsFit someEnvironment (bodyString someEnvironment [] ⟨[], [], [], 0⟩ someLinkedRuns).2 [] defaultFormatting
      someLinkedRuns :=
  formatting_read_iff (fun _ => List.Perm.refl _) someLinkedRuns_formatted

/-- The font that is written within a link is gone behind it. -/
theorem font_lost_behind_link : ∃ (env : Environment Nat) (runs : List (AttributedRun Nat)),
    (∀ l, (env.enumerate l).Perm l) ∧ (∀ run ∈ runs, Formatted run) ∧
      readBody env runs ≠ runs.flatMap (styledRun env) := by
  refine ⟨someEnvironment, someLinkedRuns, fun _ => List.Perm.refl _, someLinkedRuns_formatted, fun h => ?_⟩
  have hr := run_bodyString (fun _ => List.Perm.refl _) (List.forall_mem_nil _) List.nodup_nil
    someLinkedRuns_formatted (.refl (bodyString someEnvironment [] ⟨[], [], [], 0⟩ someLinkedRuns).2)
    (stands_start someEnvironment defaultFormatting)
  have hft := hr.mp h
  have hf : none = some (ascii "Helvetica") := hft.2.1.family.kept (.inr rfl)
  cases hf

end GnustepGui.RTF.RTFProducer
