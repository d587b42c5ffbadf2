import GnustepGui.RTF.Scanner

/-!
# Consuming RTF

The text and unicode actions of `RTFConsumer`, on the tokens of text without blocks. `decode` is what
the encoding of the file makes of one byte; a string of bytes of which one has no character is `nil`.
-/

namespace GnustepGui.RTF

variable (decode : Nat → Option Nat)

/-- What `initWithData:encoding:` and `appendString:` make of the bytes of a text, which end with the
first NUL. -/
def GSRTFmangleText (text : List Nat) : List Nat :=
  ((text.takeWhile (· ≠ 0)).mapM decode).getD []

/-- Don't add the attachment character, this gets handled separately. -/
def GSRTFunicode (uchar : Int) : List Nat :=
  if uchar ≠ NSAttachmentCharacter then [(uchar % 0x10000).toNat] else []

/-- What the action of a token appends to the text; `none` where it reads a parameter that has not been
stored. -/
def action : Token → Option (List Nat)
  | .text bytes => some (GSRTFmangleText decode bytes)
  | .paragraph => some (GSRTFmangleText decode [10])
  | .command (some .paragraph) _ | .command (some .row) _ => some (GSRTFmangleText decode [10])
  | .command (some .unichar) (.parameter n) => some (GSRTFunicode n)
  | .command (some .unichar) _ => none
  | .command _ _ => some []
  | .eof | .openBrace | .closeBrace | .ignore => some []

/-- The parser over text without blocks: it stops at the end and at a brace. -/
def parseText : Nat → List Nat → Option (List Nat)
  | 0, _ => none
  | fuel + 1, input =>
    match GSRTFlex input with
    | (.eof, _) | (.openBrace, _) | (.closeBrace, _) | (.ignore, _) => some []
    | (token, left) => do
      let text ← action decode token
      let rest ← parseText fuel left
      return text ++ rest

/-- Every token takes up a byte of the input, so there are no more turns than bytes. -/
def readRTFCharacters (input : List Nat) : Option (List Nat) := parseText decode (input.length + 1) input

/-- The characters of the bytes in Windows-1252; five bytes have none. -/
def cp1252 (b : Nat) : Option Nat :=
  if b < 0x80 ∨ (0xA0 ≤ b ∧ b < 0x100) then some b
  else
    match b with
    | 0x80 => some 0x20AC | 0x82 => some 0x201A | 0x83 => some 0x0192 | 0x84 => some 0x201E
    | 0x85 => some 0x2026 | 0x86 => some 0x2020 | 0x87 => some 0x2021 | 0x88 => some 0x02C6
    | 0x89 => some 0x2030 | 0x8A => some 0x0160 | 0x8B => some 0x2039 | 0x8C => some 0x0152
    | 0x8E => some 0x017D | 0x91 => some 0x2018 | 0x92 => some 0x2019 | 0x93 => some 0x201C
    | 0x94 => some 0x201D | 0x95 => some 0x2022 | 0x96 => some 0x2013 | 0x97 => some 0x2014
    | 0x98 => some 0x02DC | 0x99 => some 0x2122 | 0x9A => some 0x0161 | 0x9B => some 0x203A
    | 0x9C => some 0x0153 | 0x9E => some 0x017E | 0x9F => some 0x0178
    | _ => none

end GnustepGui.RTF
