import Mathlib.Data.Nat.Digits.Defs

/-!
# Writing text as RTF

`_stringWithRTFCharacters:` of `RTFProducer`: every UTF-16 unit is written as a raw byte, a named
command, a hexadecimal escape or a decimal unicode command. Bytes and units are numbers below 256 and
65536.
-/

namespace GnustepGui.RTF

/-- The bytes of an ASCII string. -/
def ascii (s : String) : List Nat := s.toList.map Char.toNat

def NSAttachmentCharacter : Nat := 0xFFFC

/-- A digit of `%X`. -/
def hexDigit (d : Nat) : Nat := if d < 10 then 48 + d else 55 + d

/-- The bytes of `%X` for a number below 256 that has two digits. -/
def hexByte (c : Nat) : List Nat := [hexDigit (c / 16), hexDigit (c % 16)]

/-- The bytes of `%d`. -/
def decimal (n : Int) : List Nat :=
  if n = 0 then [48]
  else if n < 0 then 45 :: (Nat.digits 10 n.natAbs).reverse.map (48 + ·)
  else (Nat.digits 10 n.natAbs).reverse.map (48 + ·)

/-- `(short)c`. -/
def short (c : Nat) : Int := if c < 0x8000 then c else (c : Int) - 0x10000

/-- One turn of the loop: the bytes written for a unit, and whether `\\uc0` has been written. -/
def rtfCharacter (uc_flagged : Bool) (c : Nat) : List Nat × Bool :=
  if c < 0x80 then
    if c = 92 then (ascii "\\\\", uc_flagged)
    else if c = 10 then (ascii "\\par\n", uc_flagged)
    else if c = 9 then (ascii "\\tab ", uc_flagged)
    else if c = 123 then (ascii "\\\x7b", uc_flagged)
    else if c = 125 then (ascii "\\\x7d", uc_flagged)
    else if c = 96 then (ascii "\\lquote ", uc_flagged)
    else if c = 39 then (ascii "\\rquote ", uc_flagged)
    else ([c], uc_flagged)
  else if c < 0xFF then (ascii "\\'" ++ hexByte c, uc_flagged)
  else if c = NSAttachmentCharacter then (ascii "\\'AC\x7d", uc_flagged)
  else
    -- no ANSI representation is supplied for Unicode characters
    let command := ascii "\\u" ++ decimal (short c) ++ ascii " "
    (if uc_flagged then command else ascii "\\uc0 " ++ command, true)

/-- The loop of `_stringWithRTFCharacters:` over the units of the string. -/
def rtfCharacters : Bool → List Nat → List Nat
  | _, [] => []
  | uc_flagged, c :: string =>
    (rtfCharacter uc_flagged c).1 ++ rtfCharacters (rtfCharacter uc_flagged c).2 string

def stringWithRTFCharacters (string : List Nat) : List Nat := rtfCharacters false string

end GnustepGui.RTF
