import Mathlib.Data.List.TakeWhile
import Mathlib.Data.Nat.Digits.Lemmas
import GnustepGui.RTF.Consumer

/-!
# The round trip of RTF text

The scanner reads what the producer writes in pieces: a run of raw characters behind the character that
starts it, or a single command (`parses_pieces`). A piece is never longer than what it was written
for, so the string comes back exactly when every piece does: when it has no carriage return, which the
scanner drops, and when the bytes of the C1 controls decode to themselves (`readsBack_iff`).
-/

namespace GnustepGui.RTF

/-! ## Numbers -/

theorem isdigit_digit : ∀ d < 10, isdigit (48 + d) = true := by decide

theorem hexDigit_spec : ∀ d < 16, isxdigit (hexDigit d) = true ∧ hexValue (hexDigit d) = d := by decide

theorem gethex_hexByte {c : Nat} (hc : c < 256) (left : List Nat) : gethex 2 0 (hexByte c ++ left) = (c, left) := by
  obtain ⟨hf, hfir⟩ := hexDigit_spec (c / 16) (by omega)
  obtain ⟨hsc, hs⟩ := hexDigit_spec (c % 16) (by omega)
  simp only [hexByte, List.cons_append, List.nil_append, gethex, hf, hsc, if_true, hfir, hs, Prod.mk.injEq, and_true]
  omega

theorem atoi_value (n : Nat) :
    ((Nat.digits 10 n).reverse.map (48 + ·)).foldl (fun (n : Int) (c : Nat) => n * 10 + (c - 48)) 0 = n := by
  have hv (digits : List Nat) : (digits.reverse.map (48 + ·)).foldl (fun (n : Int) (c : Nat) => n * 10 + (c - 48)) 0 =
        (Nat.ofDigits 10 digits : Nat) := by
    induction digits with
    | nil => rfl
    | cons d digits ih =>
      rw [List.reverse_cons, List.map_append, List.foldl_append, ih, Nat.ofDigits_cons]
      simp only [List.map_cons, List.map_nil, List.foldl_cons, List.foldl_nil]
      push_cast
      omega
  rw [hv, Nat.ofDigits_digits]

theorem decimal_spec {n : Int} (hn : n ≠ 0) (hs : n.natAbs < 100000) :
    ∃ c digits, decimal n = c :: digits ∧ (isdigit c || c == 45) = true ∧ c ≠ 32 ∧
      (∀ d ∈ digits, isdigit d = true) ∧ digits.length ≤ 5 ∧ atoi (c :: digits) = n := by
  have hdig : ∀ d ∈ (Nat.digits 10 n.natAbs).reverse.map (48 + ·), isdigit d = true := by
    intro d hd
    obtain ⟨e, he, rfl⟩ := List.mem_map.1 hd
    exact isdigit_digit e (Nat.digits_lt_base (by decide) (List.mem_reverse.1 he))
  have hl : ((Nat.digits 10 n.natAbs).reverse.map (48 + ·)).length ≤ 5 := by
    rw [List.length_map, List.length_reverse]
    exact (Nat.digits_length_le_iff (by decide) _).2 hs
  unfold decimal
  rw [if_neg hn]
  split
  · rename_i hneg
    refine ⟨45, _, rfl, rfl, by decide, hdig, hl, ?_⟩
    simp only [atoi, atoi_value]
    omega
  · rename_i hp
    have hv := atoi_value n.natAbs
    have hne : (Nat.digits 10 n.natAbs).reverse.map (48 + ·) ≠ [] := by
      rw [ne_eq, List.map_eq_nil_iff, List.reverse_eq_nil_iff, Nat.digits_eq_nil_iff_eq_zero]
      omega
    obtain ⟨c, digits, heq⟩ := List.exists_cons_of_ne_nil hne
    rw [heq] at hdig hl hv ⊢
    have hc : isdigit c = true := hdig c List.mem_cons_self
    have hr : 48 ≤ c ∧ c ≤ 57 := by simpa [isdigit] using hc
    refine ⟨c, digits, rfl, by rw [hc]; rfl, by omega,
      fun d hd => hdig d (List.mem_cons_of_mem c hd), by rw [List.length_cons] at hl; omega, ?_⟩
    unfold atoi
    split
    · rename_i heq
      obtain ⟨rfl, -⟩ := List.cons.inj heq
      omega
    · refine hv.trans ?_
      omega

theorem takeWhile_digits {digits : List Nat} (hd : ∀ d ∈ digits, isdigit d = true) (left : List Nat) :
    (digits ++ 32 :: left).takeWhile isdigit = digits ∧ (digits ++ 32 :: left).dropWhile isdigit = 32 :: left := by
  have hs : isdigit 32 ≠ true := by decide
  constructor
  · rw [List.takeWhile_append_of_pos hd, List.takeWhile_cons_of_neg hs, List.append_nil]
  · rw [List.dropWhile_append_of_pos hd, List.dropWhile_cons_of_neg hs]

theorem readArgument_decimal {n : Int} (hn : n ≠ 0) (hs : n.natAbs < 100000) (left : List Nat) :
    readArgument (decimal n ++ 32 :: left) = (.parameter n, left) := by
  obtain ⟨c, digits, heq, hc, hsp, hd, hl, hv⟩ := decimal_spec hn hs
  obtain ⟨ht, hdr⟩ := takeWhile_digits hd left
  have hsh : ¬ (c :: digits).length ≥ RTFMaxArgumentLength := by
    rw [List.length_cons, RTFMaxArgumentLength]
    omega
  rw [heq, List.cons_append]
  simp only [readArgument, hsp, if_false, hc, if_true, ht, hdr, hsh, hv]

theorem short_spec {c : Nat} (hc : c < 65536) (hl : 0xFF ≤ c) :
    short c ≠ 0 ∧ (short c).natAbs < 100000 ∧ GSRTFunicode (short c) = [c] := by
  unfold short GSRTFunicode NSAttachmentCharacter
  split
  · refine ⟨by omega, by omega, ?_⟩
    rw [if_pos (by omega)]
    congr 1
    omega
  · refine ⟨by omega, by omega, ?_⟩
    rw [if_pos (by omega)]
    congr 1
    omega

/-! ## Commands -/

theorem find_par : findStringFromKeywordArray (ascii "par") = some .paragraph := by decide

theorem find_tab : findStringFromKeywordArray (ascii "tab") = some .tabulator := by decide

theorem find_lquote : findStringFromKeywordArray (ascii "lquote") = some .lquote := by decide

theorem find_rquote : findStringFromKeywordArray (ascii "rquote") = some .rquote := by decide

theorem find_u : findStringFromKeywordArray (ascii "u") = some .unichar := by decide

theorem find_uc : findStringFromKeywordArray (ascii "uc") = none := by decide

theorem head_stops {c : Nat} {left : List Nat} (hc : isalpha c = false) :
    ∀ d ∈ (c :: left).head?, isalpha d = false := by
  intro d hd
  obtain rfl := Option.some.inj hd
  exact hc

theorem readCommand_name {name left : List Nat} (hn : ∀ c ∈ name, isalpha c = true)
    (hl : name.length < RTFMaxCmdLength) (hlf : ∀ c ∈ left.head?, isalpha c = false) : readCommand (name ++ left) =
      some (findStringFromKeywordArray name, (readArgument left).1, (readArgument left).2) := by
  have hs : left.takeWhile isalpha = [] ∧ left.dropWhile isalpha = left := by
    cases left with
    | nil => exact ⟨rfl, rfl⟩
    | cons c left =>
      have hc : isalpha c ≠ true := by simpa using hlf c rfl
      exact ⟨List.takeWhile_cons_of_neg hc, List.dropWhile_cons_of_neg hc⟩
  have ht : (name ++ left).takeWhile isalpha = name := by
    rw [List.takeWhile_append_of_pos hn, hs.1, List.append_nil]
  have hd : (name ++ left).dropWhile isalpha = left := by rw [List.dropWhile_append_of_pos hn, hs.2]
  simp only [readCommand, ht, hd]
  rw [if_neg (by omega)]

theorem GSRTFlex_command (name left : List Nat) (hne : name ≠ []) (hn : ∀ c ∈ name, isalpha c = true)
    (hl : name.length < RTFMaxCmdLength) (hlf : ∀ c ∈ left.head?, isalpha c = false) :
    GSRTFlex (92 :: name ++ left) =
      match (findStringFromKeywordArray name).bind Keyword.character with
      | some c => readText (c :: (readArgument left).2)
      | none => (.command (findStringFromKeywordArray name) (readArgument left).1, (readArgument left).2) := by
  obtain ⟨d, name', rfl⟩ := List.exists_cons_of_ne_nil hne
  have hd : isalpha d = true := hn d List.mem_cons_self
  have hc := readCommand_name hn hl hlf
  have hs : ((92 : Nat) :: (d :: name') ++ left).dropWhile isNewline = 92 :: ((d :: name') ++ left) := rfl
  unfold GSRTFlex
  rw [hs]
  simp only [List.cons_append] at hc ⊢
  simp only [hd, if_true, hc]
  rfl

/-! ## What is written for a unit -/

/-- Written as it is. -/
def isRaw (c : Nat) : Bool :=
  c < 0x80 && !(c == 92 || c == 10 || c == 9 || c == 123 || c == 125 || c == 96 || c == 39)

/-- Read as the beginning of a text that goes on over the raw characters behind it. -/
def startsRun (c : Nat) : Bool :=
  (isRaw c && c != 13) || c == 9 || c == 96 || c == 39 || (0x80 ≤ c && c < 0xFF)

section Units

variable {flagged : Bool} {c : Nat} {string left : List Nat}

theorem rtfCharacter_raw (hc : isRaw c = true) : rtfCharacter flagged c = ([c], flagged) := by
  simp only [isRaw, Bool.and_eq_true, decide_eq_true_eq, Bool.not_eq_true', Bool.or_eq_false_iff,
    beq_eq_false_iff_ne] at hc
  obtain ⟨ha, ⟨⟨⟨⟨⟨h92, h10⟩, h9⟩, h123⟩, h125⟩, h96⟩, h39⟩ := hc
  simp only [rtfCharacter, ha, h92, h10, h9, h123, h125, h96, h39, if_true, if_false]

theorem not_special_of_raw (hc : isRaw c = true) : (!isSpecial c) = true := by
  simp only [isRaw, isSpecial, Bool.and_eq_true, Bool.not_eq_true', Bool.or_eq_false_iff, beq_eq_false_iff_ne] at hc ⊢
  tauto

variable (flagged) in
/-- Anything else is written with a backslash first. -/
theorem rtfCharacter_escaped (hc : ¬ isRaw c = true) : ∃ bytes, (rtfCharacter flagged c).1 = 92 :: bytes := by
  simp only [isRaw, Bool.and_eq_true, decide_eq_true_eq, Bool.not_eq_true', Bool.or_eq_false_iff,
    beq_eq_false_iff_ne] at hc
  unfold rtfCharacter
  split_ifs with ha h92 h10 h9 h123 h125 h96 h39 hb hatt
  all_goals first
    | exact ⟨_, rfl⟩
    | (exfalso; exact hc ⟨ha, ⟨⟨⟨⟨⟨⟨h92, h10⟩, h9⟩, h123⟩, h125⟩, h96⟩, h39⟩⟩)

theorem rtfCharacters_cons :
    rtfCharacters flagged (c :: string) =
      (rtfCharacter flagged c).1 ++ rtfCharacters (rtfCharacter flagged c).2 string := rfl

variable (flagged string) in
theorem rtfCharacters_run : (rtfCharacters flagged string).takeWhile (fun c => !isSpecial c) = string.takeWhile isRaw ∧
      (rtfCharacters flagged string).dropWhile (fun c => !isSpecial c) =
        rtfCharacters flagged (string.dropWhile isRaw) := by
  induction string with
  | nil => exact ⟨rfl, rfl⟩
  | cons c string ih =>
    by_cases hc : isRaw c = true
    · rw [rtfCharacters_cons, rtfCharacter_raw hc]
      simp only [List.singleton_append, List.takeWhile_cons, List.dropWhile_cons, not_special_of_raw hc, hc, if_true]
      exact ⟨congrArg (c :: ·) ih.1, ih.2⟩
    · obtain ⟨bytes, hb⟩ := rtfCharacter_escaped flagged hc
      rw [List.takeWhile_cons_of_neg hc, List.dropWhile_cons_of_neg hc, rtfCharacters_cons, hb, List.cons_append]
      exact ⟨rfl, rfl⟩

theorem not_newline_of_startsRun (hc : startsRun c = true) : isNewline c = false ∧ isSpecial c = false := by
  simp only [startsRun, isRaw, isNewline, isSpecial, Bool.or_eq_true, Bool.and_eq_true, decide_eq_true_eq,
    Bool.not_eq_true', Bool.or_eq_false_iff, beq_eq_false_iff_ne, bne_iff_ne, beq_iff_eq] at hc ⊢
  omega

theorem readText_run (hc : startsRun c = true) : readText (c :: rtfCharacters flagged string) =
      (.text ((c :: string.takeWhile isRaw).filter (· ≠ 13)), rtfCharacters flagged (string.dropWhile isRaw)) := by
  obtain ⟨hn, hs⟩ := not_newline_of_startsRun hc
  obtain ⟨htk, hdr⟩ := rtfCharacters_run flagged string
  have hk : (c :: string.takeWhile isRaw).filter (fun c => !isNewline c) =
      (c :: string.takeWhile isRaw).filter (· ≠ 13) := by
    refine List.filter_congr fun d hd => ?_
    have ht : d ≠ 10 := by
      rcases List.mem_cons.1 hd with rfl | hd
      · simp only [isNewline, Bool.or_eq_false_iff, beq_eq_false_iff_ne] at hn
        exact hn.1
      · have hr : isRaw d = true := by
          have ha := List.all_takeWhile (p := isRaw) (l := string)
          exact List.all_eq_true.1 ha d hd
        rintro rfl
        exact absurd hr (by decide)
    have ht : (d == 10) = false := beq_eq_false_iff_ne.2 ht
    rw [isNewline, ht, Bool.false_or, Bool.eq_iff_iff]
    simp
  have hp : (!isSpecial c) = true := by rw [hs]; rfl
  simp only [readText, List.takeWhile_cons, List.dropWhile_cons, hp, if_true, htk, hdr, hk]

variable (flagged left) in
theorem GSRTFlex_run (hc : startsRun c = true) : (rtfCharacter flagged c).2 = flagged ∧
      GSRTFlex ((rtfCharacter flagged c).1 ++ left) = readText (c :: left) := by
  by_cases hr : isRaw c = true
  · rw [rtfCharacter_raw hr]
    refine ⟨rfl, ?_⟩
    obtain ⟨hn, hs⟩ := not_newline_of_startsRun hc
    simp only [isSpecial, Bool.or_eq_false_iff, beq_eq_false_iff_ne] at hs
    have hsk : ([c] ++ left).dropWhile isNewline = c :: left := by
      rw [List.singleton_append, List.dropWhile_cons_of_neg (by rw [hn]; decide)]
    unfold GSRTFlex
    rw [hsk]
    simp only [hs, if_false]
  · have hcas : c = 9 ∨ c = 96 ∨ c = 39 ∨ (0x80 ≤ c ∧ c < 0xFF) := by
      simp only [startsRun, Bool.or_eq_true, Bool.and_eq_true, decide_eq_true_eq, beq_iff_eq] at hc
      tauto
    rcases hcas with rfl | rfl | rfl | ⟨hlow, hhg⟩
    · refine ⟨rfl, ?_⟩
      have hl := GSRTFlex_command (ascii "tab") (32 :: left) (by decide) (by decide) (by decide)
        (head_stops rfl)
      rw [find_tab] at hl
      exact hl
    · refine ⟨rfl, ?_⟩
      have hl := GSRTFlex_command (ascii "lquote") (32 :: left) (by decide) (by decide) (by decide)
        (head_stops rfl)
      rw [find_lquote] at hl
      exact hl
    · refine ⟨rfl, ?_⟩
      have hl := GSRTFlex_command (ascii "rquote") (32 :: left) (by decide) (by decide) (by decide)
        (head_stops rfl)
      rw [find_rquote] at hl
      exact hl
    · have hw : rtfCharacter flagged c = (ascii "\\'" ++ hexByte c, flagged) := by
        unfold rtfCharacter
        rw [if_neg (by omega), if_pos hhg]
      rw [hw]
      refine ⟨rfl, ?_⟩
      have hh := gethex_hexByte (c := c) (by omega) left
      show readQuoted (39 :: (hexByte c ++ left)) = _
      simp only [readQuoted, if_true, hh]

end Units

/-! ## Reading the pieces -/

/-- The units that are read with one token: a run, or a single unit. -/
def pieces : List Nat → List (List Nat)
  | [] => []
  | c :: string =>
    if startsRun c then (c :: string.takeWhile isRaw) :: pieces (string.dropWhile isRaw)
    else [c] :: pieces string
termination_by string => string.length
decreasing_by
  · exact Nat.lt_succ_of_le (List.dropWhile_sublist _).length_le
  · exact Nat.lt_succ_self _

/-- What is read for a piece. -/
def pieceText (decode : Nat → Option Nat) : List Nat → List Nat
  | [] => []
  | c :: run =>
    if startsRun c then (((c :: run).filter (· ≠ 13)).mapM decode).getD []
    else if c = 13 then []
    else [c]

/-- Neither NUL nor the attachment character. -/
def IsUnit (c : Nat) : Prop := c ≠ 0 ∧ c ≠ NSAttachmentCharacter ∧ c < 65536

section Reading

variable {decode : Nat → Option Nat} {flagged : Bool} {c : Nat} {string input left text rest : List Nat}
  {token : Token}

theorem pieces_cons_run (hc : startsRun c = true) :
    pieces (c :: string) = (c :: string.takeWhile isRaw) :: pieces (string.dropWhile isRaw) := by
  rw [pieces, if_pos hc]

theorem pieces_cons_single (hc : ¬ startsRun c = true) : pieces (c :: string) = [c] :: pieces string := by
  rw [pieces, if_neg hc]

theorem pieces_flatten (string : List Nat) : (pieces string).flatten = string := by
  induction string using pieces.induct with
  | case1 => simp [pieces]
  | case2 c string hc ih =>
    rw [pieces_cons_run hc, List.flatten_cons, ih, List.cons_append, List.takeWhile_append_dropWhile]
  | case3 c string hc ih =>
    rw [pieces_cons_single hc, List.flatten_cons, ih]
    rfl

/-- The parser reads the text from the input, in no more turns than there are bytes. -/
def Parses (decode : Nat → Option Nat) (input text : List Nat) : Prop :=
  ∃ fuel ≤ input.length + 1, parseText decode fuel input = some text

/-- A token that does not end the text. -/
def Token.goesOn : Token → Bool
  | .eof | .openBrace | .closeBrace | .ignore => false
  | _ => true

theorem parseText_step {fuel : Nat} (hl : GSRTFlex input = (token, left)) (hon : token.goesOn = true)
    (ha : action decode token = some text) (hr : parseText decode fuel left = some rest) :
    parseText decode (fuel + 1) input = some (text ++ rest) := by
  cases token with
  | eof => exact nomatch hon
  | openBrace => exact nomatch hon
  | closeBrace => exact nomatch hon
  | ignore => exact nomatch hon
  | paragraph => simp only [parseText, hl, ha, hr]; rfl
  | text bytes => simp only [parseText, hl, ha, hr]; rfl
  | command keyword argument => simp only [parseText, hl, ha, hr]; rfl

theorem parses_nil : Parses decode [] [] := ⟨1, Nat.le_refl 1, rfl⟩

theorem parses_step (hl : GSRTFlex input = (token, left)) (hlen : left.length < input.length)
    (hon : token.goesOn = true) (ha : action decode token = some text)
    (hr : Parses decode left rest) : Parses decode input (text ++ rest) := by
  obtain ⟨fuel, hf, hp⟩ := hr
  exact ⟨fuel + 1, by omega, parseText_step hl hon ha hp⟩

theorem parses_newline (hc : isNewline c = true) (h : Parses decode input text) : Parses decode (c :: input) text := by
  obtain ⟨fuel, hf, hp⟩ := h
  cases fuel with
  | zero => exact nomatch hp
  | succ fuel =>
    have hl : GSRTFlex (c :: input) = GSRTFlex input := by
      unfold GSRTFlex
      rw [List.dropWhile_cons_of_pos hc]
    refine ⟨fuel + 1, by rw [List.length_cons]; omega, ?_⟩
    rw [parseText, hl, ← parseText]
    exact hp

theorem mangleText_ascii (hd : ∀ b u, cp1252 b = some u → decode b = some u) (hc : c < 0x80)
    (hz : c ≠ 0) : GSRTFmangleText decode [c] = [c] := by
  have hv : decode c = some c := hd c c (if_pos (.inl hc))
  have ht : [c].takeWhile (· ≠ 0) = [c] := by simp [hz]
  simp only [GSRTFmangleText, ht, List.mapM_cons, List.mapM_nil, hv]
  rfl

theorem mangleText_run {bytes : List Nat} (h : ∀ b ∈ bytes, b ≠ 0) :
    GSRTFmangleText decode bytes = (bytes.mapM decode).getD [] := by
  have ht : bytes.takeWhile (· ≠ 0) = bytes := by
    rw [List.takeWhile_eq_self_iff]
    exact fun b hb => decide_eq_true (h b hb)
  rw [GSRTFmangleText, ht]

/-- A unit beyond the bytes: its command, after the one that says that no bytes stand for it. -/
theorem parses_unicode (hc : 0xFF ≤ c) (hu : IsUnit c) (h : Parses decode (rtfCharacters true string) text) :
    Parses decode (rtfCharacters flagged (c :: string)) (c :: text) := by
  obtain ⟨-, hatt, hsml⟩ := hu
  obtain ⟨hne, hdg, hv⟩ := short_spec hsml hc
  have harg := readArgument_decimal hne hdg (rtfCharacters true string)
  obtain ⟨d, digits, heq, hd, -⟩ := decimal_spec hne hdg
  have hf : isalpha d = false := by
    simp only [isdigit, isalpha, Bool.or_eq_true, Bool.and_eq_true, decide_eq_true_eq, beq_iff_eq,
      Bool.or_eq_false_iff, Bool.and_eq_false_iff, decide_eq_false_iff_not] at hd ⊢
    omega
  have hl := GSRTFlex_command (ascii "u") (decimal (short c) ++ 32 :: rtfCharacters true string) (by decide)
    (by decide) (by decide) (by rw [heq]; exact head_stops hf)
  rw [find_u, harg] at hl
  have hcmd : Parses decode (92 :: ascii "u" ++ (decimal (short c) ++ 32 :: rtfCharacters true string))
      (c :: text) := by
    have ha : action decode (.command (some .unichar) (.parameter (short c))) = some [c] := congrArg some hv
    exact parses_step hl (by simp only [List.length_append, List.length_cons]; omega) rfl ha h
  have hw : rtfCharacter flagged c =
      (if flagged then ascii "\\u" ++ decimal (short c) ++ ascii " "
        else ascii "\\uc0 " ++ (ascii "\\u" ++ decimal (short c) ++ ascii " "), true) := by
    unfold rtfCharacter
    rw [if_neg (by omega), if_neg (by omega), if_neg hatt]
  rw [rtfCharacters_cons, hw]
  have hs : ascii "\\u" ++ decimal (short c) ++ ascii " " ++ rtfCharacters true string =
      92 :: ascii "u" ++ (decimal (short c) ++ 32 :: rtfCharacters true string) := by
    simp only [List.append_assoc]
    rfl
  cases flagged with
  | true =>
    simp only [if_true]
    rw [hs]
    exact hcmd
  | false =>
    simp only [Bool.false_eq_true, if_false]
    rw [List.append_assoc, hs]
    have hl := GSRTFlex_command (ascii "uc")
      (48 :: 32 :: (92 :: ascii "u" ++ (decimal (short c) ++ 32 :: rtfCharacters true string))) (by decide)
      (by decide) (by decide) (head_stops rfl)
    rw [find_uc] at hl
    have ha : action decode (.command none (.parameter 0)) = some [] := rfl
    refine parses_step hl ?_ rfl ha hcmd
    change (92 :: ascii "u" ++ (decimal (short c) ++ 32 :: rtfCharacters true string)).length < _
    simp only [List.length_append, List.length_cons]
    omega

theorem parses_special (hd : ∀ b u, cp1252 b = some u → decode b = some u) (hc : isSpecial c = true)
    (h : Parses decode (rtfCharacters flagged string) text) :
    Parses decode (rtfCharacters flagged (c :: string)) (c :: text) := by
  have hcas : c = 123 ∨ c = 125 ∨ c = 92 := by
    simpa only [isSpecial, Bool.or_eq_true, beq_iff_eq, or_assoc] using hc
  have hw : rtfCharacters flagged (c :: string) = 92 :: c :: rtfCharacters flagged string := by
    rcases hcas with rfl | rfl | rfl <;> rfl
  have hl : GSRTFlex (92 :: c :: rtfCharacters flagged string) = (.text [c], rtfCharacters flagged string) := by
    rcases hcas with rfl | rfl | rfl <;> rfl
  have ha : action decode (.text [c]) = some [c] := congrArg some (mangleText_ascii hd (by omega) (by omega))
  rw [hw]
  refine parses_step hl ?_ rfl ha h
  simp only [List.length_cons]
  omega

theorem parses_par (hd : ∀ b u, cp1252 b = some u → decode b = some u)
    (h : Parses decode (rtfCharacters flagged string) text) :
    Parses decode (rtfCharacters flagged (10 :: string)) (10 :: text) := by
  have hw : rtfCharacters flagged (10 :: string) =
      92 :: ascii "par" ++ 10 :: rtfCharacters flagged string := rfl
  have hl := GSRTFlex_command (ascii "par") (10 :: rtfCharacters flagged string) (by decide) (by decide)
    (by decide) (head_stops rfl)
  rw [find_par] at hl
  have ha : action decode (.command (some .paragraph) .isEmpty) = some [10] :=
    congrArg some (mangleText_ascii hd (by decide) (by decide))
  rw [hw]
  refine parses_step hl ?_ rfl ha (parses_newline rfl h)
  change (10 :: rtfCharacters flagged string).length < _
  simp only [List.length_append, List.length_cons]
  omega

theorem parses_single (hd : ∀ b u, cp1252 b = some u → decode b = some u) (hc : ¬ startsRun c = true)
    (hu : IsUnit c) (h : ∀ flagged, Parses decode (rtfCharacters flagged string) text) :
    Parses decode (rtfCharacters flagged (c :: string)) (pieceText decode [c] ++ text) := by
  have hcas : c = 13 ∨ c = 10 ∨ isSpecial c = true ∨ 0xFF ≤ c := by
    simp only [startsRun, isRaw, isSpecial, Bool.or_eq_true, Bool.and_eq_true, decide_eq_true_eq,
      bne_iff_ne, beq_iff_eq, Bool.not_eq_true', Bool.or_eq_false_iff, beq_eq_false_iff_ne] at hc ⊢
    omega
  have ht : pieceText decode [c] = if c = 13 then [] else [c] := by rw [pieceText, if_neg hc]
  rw [ht]
  rcases hcas with rfl | rfl | hs | hl
  · exact parses_newline rfl (h flagged)
  · exact parses_par hd (h flagged)
  · have hne : c ≠ 13 := by
      rintro rfl
      exact absurd hs (by decide)
    rw [if_neg hne]
    exact parses_special hd hs (h flagged)
  · rw [if_neg (by omega)]
    exact parses_unicode hl hu (h true)

variable (flagged c) in
theorem rtfCharacter_length_pos : 0 < (rtfCharacter flagged c).1.length := by
  by_cases hc : isRaw c = true
  · rw [rtfCharacter_raw hc]
    exact Nat.one_pos
  · obtain ⟨bytes, hb⟩ := rtfCharacter_escaped flagged hc
    rw [hb]
    exact Nat.succ_pos _

theorem parses_run (hc : startsRun c = true) (hu : ∀ d ∈ c :: string, IsUnit d)
    (h : Parses decode (rtfCharacters flagged (string.dropWhile isRaw)) text) :
    Parses decode (rtfCharacters flagged (c :: string)) (pieceText decode (c :: string.takeWhile isRaw) ++ text) := by
  obtain ⟨hf, hl⟩ := GSRTFlex_run flagged (rtfCharacters flagged string) hc
  rw [readText_run hc] at hl
  have hp : ∀ d ∈ (c :: string.takeWhile isRaw).filter (· ≠ 13), d ≠ 0 := by
    intro d hd
    rcases List.mem_cons.1 (List.mem_filter.1 hd).1 with rfl | hd
    · exact (hu d List.mem_cons_self).1
    · exact (hu d (List.mem_cons_of_mem c ((List.takeWhile_sublist _).mem hd))).1
  have ha : action decode (.text ((c :: string.takeWhile isRaw).filter (· ≠ 13))) =
      some (pieceText decode (c :: string.takeWhile isRaw)) := by
    rw [action, mangleText_run hp, pieceText, if_pos hc]
  rw [rtfCharacters_cons, hf]
  refine parses_step hl ?_ rfl ha h
  have hpr := congrArg List.length (rtfCharacters_run flagged string).2
  have hle := (List.dropWhile_sublist (fun c => !isSpecial c) (l := rtfCharacters flagged string)).length_le
  have hw := rtfCharacter_length_pos flagged c
  rw [List.length_append]
  omega

variable (flagged) in
theorem parses_pieces (hdc : ∀ b u, cp1252 b = some u → decode b = some u) (hu : ∀ c ∈ string, IsUnit c) :
    Parses decode (rtfCharacters flagged string) ((pieces string).flatMap (pieceText decode)) := by
  induction string using pieces.induct generalizing flagged with
  | case1 =>
    rw [pieces]
    exact parses_nil
  | case2 c string hc ih =>
    rw [pieces_cons_run hc, List.flatMap_cons]
    refine parses_run hc hu (ih flagged fun d hd => ?_)
    exact hu d (List.mem_cons_of_mem c ((List.dropWhile_sublist _).mem hd))
  | case3 c string hc ih =>
    rw [pieces_cons_single hc, List.flatMap_cons]
    refine parses_single hdc hc (hu c List.mem_cons_self) fun flagged => ih flagged fun d hd => ?_
    exact hu d (List.mem_cons_of_mem c hd)

theorem parseText_more {fuel more : Nat} (hle : fuel ≤ more) (h : parseText decode fuel input = some text) :
    parseText decode more input = some text := by
  induction fuel generalizing more input text with
  | zero => exact nomatch h
  | succ fuel ih =>
    obtain ⟨more, rfl⟩ : ∃ k, more = k + 1 := ⟨more - 1, by omega⟩
    rcases hl : GSRTFlex input with ⟨token, left⟩
    have hs (hon : token.goesOn = true) (hp : ∃ first, action decode token = some first ∧
          ∃ rest, parseText decode fuel left = some rest ∧ first ++ rest = text) :
        parseText decode (more + 1) input = some text := by
      obtain ⟨first, ha, rest, hr, rfl⟩ := hp
      exact parseText_step hl hon ha (ih (by omega) hr)
    cases token with
    | eof | openBrace | closeBrace | ignore => simpa only [parseText, hl] using h
    | paragraph | text | command =>
      refine hs rfl ?_
      simpa only [parseText, hl, Option.bind_eq_bind, Option.bind_eq_some_iff, Option.pure_def,
        Option.some.injEq] using h

theorem readRTFCharacters_eq (hd : ∀ b u, cp1252 b = some u → decode b = some u) (hu : ∀ c ∈ string, IsUnit c) :
    readRTFCharacters decode (stringWithRTFCharacters string) = some ((pieces string).flatMap (pieceText decode)) := by
  obtain ⟨fuel, hf, hp⟩ := parses_pieces false hd hu
  exact parseText_more hf hp

end Reading

/-! ## Characters that come back -/

/-- The bytes that have no character in Windows-1252. -/
def undefinedBytes : List Nat := [0x81, 0x8D, 0x8F, 0x90, 0x9D]

/-- No carriage return, and no C1 control unless the encoding of the file keeps it for its byte. -/
def Survives (decode : Nat → Option Nat) (c : Nat) : Prop :=
  c ≠ 13 ∧ (0x80 ≤ c → c < 0xA0 → c ∈ undefinedBytes ∧ decode c = some c)

section Survival

variable {decode : Nat → Option Nat} {c : Nat} {string run text : List Nat}

theorem cp1252_control : ∀ k < 0x20, 0x80 + k ∉ undefinedBytes → ∃ u, cp1252 (0x80 + k) = some u ∧ u ≠ 0x80 + k := by
  have hc : ∀ k < 0x20, 0x80 + k ∉ undefinedBytes →
      (cp1252 (0x80 + k)).any (· != 0x80 + k) = true := by decide
  intro k hk hd
  have hother := hc k hk hd
  cases hu : cp1252 (0x80 + k) with
  | none =>
    rw [hu] at hother
    exact nomatch hother
  | some u =>
    rw [hu] at hother
    exact ⟨u, rfl, bne_iff_ne.1 hother⟩

theorem survives_iff (hdc : ∀ b u, cp1252 b = some u → decode b = some u) (hc : c < 0x100) :
    Survives decode c ↔ c ≠ 13 ∧ decode c = some c := by
  have hp (h : ¬ (0x80 ≤ c ∧ c < 0xA0)) : decode c = some c := hdc c c (if_pos (by omega))
  constructor
  · rintro ⟨hne, hcon⟩
    refine ⟨hne, ?_⟩
    by_cases h : 0x80 ≤ c ∧ c < 0xA0
    · exact (hcon h.1 h.2).2
    · exact hp h
  · rintro ⟨hne, hk⟩
    refine ⟨hne, fun hl hh => ⟨?_, hk⟩⟩
    by_contra hd
    obtain ⟨k, rfl⟩ := Nat.exists_eq_add_of_le hl
    obtain ⟨u, hu, hother⟩ := cp1252_control k (by omega) hd
    have hs := (hdc _ u hu).symm.trans hk
    exact hother (Option.some.inj hs)

theorem mapM_decode_iff (string : List Nat) : string.mapM decode = some string ↔ ∀ c ∈ string, decode c = some c := by
  induction string with
  | nil => exact iff_of_true rfl fun c hc => nomatch hc
  | cons c string ih =>
    rw [List.forall_mem_cons, ← ih, List.mapM_cons]
    simp only [Option.bind_eq_bind, Option.bind_eq_some_iff, Option.pure_def, Option.some.injEq, List.cons.injEq]
    constructor
    · rintro ⟨d, hd, rest, hr, rfl, rfl⟩
      exact ⟨hd, hr⟩
    · rintro ⟨hc, hr⟩
      exact ⟨c, hc, string, hr, rfl, rfl⟩

variable (decode) in
theorem mapM_decode_length (string : List Nat) : ((string.mapM decode).getD []).length ≤ string.length := by
  have hs : ∀ string text : List Nat, string.mapM decode = some text → text.length = string.length := by
    intro string
    induction string with
    | nil =>
      rintro text h
      obtain rfl := Option.some.inj h
      rfl
    | cons c string ih =>
      intro text h
      simp only [List.mapM_cons, Option.bind_eq_bind, Option.bind_eq_some_iff, Option.pure_def, Option.some.injEq] at h
      obtain ⟨d, -, rest, hr, rfl⟩ := h
      rw [List.length_cons, List.length_cons, ih rest hr]
  cases h : string.mapM decode with
  | none => exact Nat.zero_le _
  | some text => exact (hs string text h).le

variable (decode) in
/-- What is read for a piece is not longer than the piece. -/
theorem pieceText_length (string : List Nat) : (pieceText decode string).length ≤ string.length := by
  cases string with
  | nil => exact Nat.le_refl 0
  | cons c run =>
    rw [pieceText]
    split
    · exact (mapM_decode_length decode _).trans (List.length_filter_le _ _)
    · split
      · exact Nat.zero_le _
      · rw [List.length_cons, List.length_cons, List.length_nil]
        omega

theorem pieceText_run (hdc : ∀ b u, cp1252 b = some u → decode b = some u) (hc : startsRun c = true)
    (hr : ∀ d ∈ run, isRaw d = true) : pieceText decode (c :: run) = c :: run ↔ ∀ d ∈ c :: run, Survives decode d := by
  have hb : ∀ d ∈ c :: run, d < 0x100 := by
    intro d hd
    rcases List.mem_cons.1 hd with rfl | hd
    · simp only [startsRun, isRaw, Bool.or_eq_true, Bool.and_eq_true, decide_eq_true_eq, beq_iff_eq] at hc
      omega
    · have hraw := hr d hd
      simp only [isRaw, Bool.and_eq_true, decide_eq_true_eq] at hraw
      omega
  have hs : (∀ d ∈ c :: run, Survives decode d) ↔ (∀ d ∈ c :: run, d ≠ 13) ∧ ∀ d ∈ c :: run, decode d = some d := by
    rw [← forall₂_and]
    exact forall₂_congr fun d hd => survives_iff hdc (hb d hd)
  rw [hs, ← mapM_decode_iff, pieceText, if_pos hc]
  constructor
  · intro h
    have hf : (c :: run).filter (· ≠ 13) = c :: run := by
      have hl := mapM_decode_length decode ((c :: run).filter (· ≠ 13))
      rw [h] at hl
      exact List.filter_sublist.eq_of_length_le hl
    refine ⟨fun d hd => by simpa using List.filter_eq_self.1 hf d hd, ?_⟩
    rw [hf] at h
    cases hrd : (c :: run).mapM decode with
    | none =>
      rw [hrd] at h
      exact nomatch h
    | some text =>
      rw [hrd] at h
      exact congrArg some h
  · rintro ⟨hne, hrd⟩
    have hf : (c :: run).filter (· ≠ 13) = c :: run := List.filter_eq_self.2 fun d hd => decide_eq_true (hne d hd)
    rw [hf, hrd]
    rfl

theorem pieceText_single (hc : ¬ startsRun c = true) : pieceText decode [c] = [c] ↔ ∀ d ∈ [c], Survives decode d := by
  have hcon : ¬ (0x80 ≤ c ∧ c < 0xA0) := by
    simp only [startsRun, Bool.or_eq_true, Bool.and_eq_true, decide_eq_true_eq] at hc
    omega
  rw [List.forall_mem_singleton, pieceText, if_neg hc]
  constructor
  · intro h
    refine ⟨?_, fun hl hh => absurd ⟨hl, hh⟩ hcon⟩
    rintro rfl
    exact nomatch h
  · rintro ⟨hne, -⟩
    rw [if_neg hne]

theorem pieces_survive (hd : ∀ b u, cp1252 b = some u → decode b = some u) (string : List Nat) :
    (∀ piece ∈ pieces string, pieceText decode piece = piece) ↔ ∀ c ∈ string, Survives decode c := by
  induction string using pieces.induct with
  | case1 =>
    rw [pieces]
    exact iff_of_true (fun _ h => nomatch h) fun _ h => nomatch h
  | case2 c string hc ih =>
    have hr : ∀ d ∈ string.takeWhile isRaw, isRaw d = true := List.all_eq_true.1 List.all_takeWhile
    have hs : c :: string = (c :: string.takeWhile isRaw) ++ string.dropWhile isRaw := by
      rw [List.cons_append, List.takeWhile_append_dropWhile]
    rw [pieces_cons_run hc, List.forall_mem_cons, pieceText_run hd hc hr, ih, hs, List.forall_mem_append]
  | case3 c string hc ih =>
    rw [pieces_cons_single hc, List.forall_mem_cons, pieceText_single hc, ih, List.forall_mem_singleton,
      List.forall_mem_cons]

theorem flatMap_eq_flatten_iff {f : List Nat → List Nat} (hle : ∀ piece, (f piece).length ≤ piece.length)
    (parts : List (List Nat)) : parts.flatMap f = parts.flatten ↔ ∀ piece ∈ parts, f piece = piece := by
  have ht (parts : List (List Nat)) : (parts.flatMap f).length ≤ parts.flatten.length := by
    induction parts with
    | nil => exact Nat.le_refl 0
    | cons piece parts ih =>
      rw [List.flatMap_cons, List.flatten_cons, List.length_append, List.length_append]
      exact Nat.add_le_add (hle piece) ih
  induction parts with
  | nil => exact iff_of_true rfl fun _ h => nomatch h
  | cons piece parts ih =>
    rw [List.flatMap_cons, List.flatten_cons, List.forall_mem_cons]
    constructor
    · intro h
      have hl := congrArg List.length h
      rw [List.length_append, List.length_append] at hl
      have hf := hle piece
      have hr := ht parts
      obtain ⟨hpc, hp⟩ := List.append_inj h (by omega)
      exact ⟨hpc, ih.1 hp⟩
    · rintro ⟨hf, hr⟩
      rw [hf, ih.2 hr]

/-- Reading what is written for a string gives the string exactly when each character survives. -/
theorem readsBack_iff (hdecode : ∀ b u, cp1252 b = some u → decode b = some u)
    (hunits : ∀ c ∈ string, IsUnit c) :
    readRTFCharacters decode (stringWithRTFCharacters string) = some string ↔
      ∀ c ∈ string, Survives decode c := by
  have hf := flatMap_eq_flatten_iff (pieceText_length decode) (pieces string)
  rw [pieces_flatten, pieces_survive hdecode] at hf
  rw [readRTFCharacters_eq hdecode hunits, Option.some.injEq, hf]

/-- Quotes, a brace, an accent, the euro sign and the half of a surrogate pair. -/
theorem readsBack_sample :
    readRTFCharacters cp1252 (stringWithRTFCharacters [65, 9, 39, 123, 10, 233, 0x20AC, 66, 0xD83D]) =
      some [65, 9, 39, 123, 10, 233, 0x20AC, 66, 0xD83D] := by
  refine (readsBack_iff (fun b u h => h) ?_).2 ?_
  · simp only [IsUnit, NSAttachmentCharacter]
    decide
  · simp only [Survives, undefinedBytes]
    decide

/-- A carriage return is written as it is, and dropped when it is read. -/
theorem not_readsBack_return :
    ¬ ∀ string, (∀ c ∈ string, IsUnit c) →
      readRTFCharacters cp1252 (stringWithRTFCharacters string) = some string := by
  intro ha
  have hr : readRTFCharacters cp1252 (stringWithRTFCharacters [65, 13, 66]) = some [65, 66] := by decide
  have hu : ∀ c ∈ [65, 13, 66], IsUnit c := by
    simp only [IsUnit, NSAttachmentCharacter]
    decide
  rw [ha [65, 13, 66] hu] at hr
  exact absurd hr (by decide)

end Survival

end GnustepGui.RTF
