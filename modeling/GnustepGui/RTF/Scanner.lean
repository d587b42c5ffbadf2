import GnustepGui.RTF.Producer

/-!
# Scanning RTF

`rtfScanner.m`: the keywords, `readCommand`, `readText`, `gethex` and `GSRTFlex`. The input is the
list of the bytes that are left; a character that is put back stands at its head again.
-/

namespace GnustepGui.RTF

/-- The keywords that the scanner and the text actions look at; all others set attributes or belong to
the structure of the file. -/
inductive Keyword where
  | tabulator | cell | emdash | endash | bullet | lquote | rquote | ldblquote | rdblquote
  | paragraph | row | unichar
  | formatting
  deriving DecidableEq, Repr

/-- Must be sorted. -/
def RTFcommands : List (String × Keyword) :=
  [("NeXTGraphic", .formatting), ("NeXTHelpLink", .formatting), ("NeXTHelpMarker", .formatting),
   ("ansi", .formatting), ("ansicpg", .formatting), ("b", .formatting), ("blue", .formatting),
   ("bullet", .bullet), ("cb", .formatting), ("cell", .cell), ("cf", .formatting),
   ("colortbl", .formatting), ("cpg", .formatting), ("dn", .formatting), ("emdash", .emdash),
   ("emspace", .formatting), ("endash", .endash), ("enspace", .formatting), ("f", .formatting),
   ("fbidi", .formatting), ("fcharset", .formatting), ("fdecor", .formatting), ("fi", .formatting),
   ("field", .formatting), ("filename", .formatting), ("fldalt", .formatting),
   ("flddirty", .formatting), ("fldedit", .formatting), ("fldinst", .formatting),
   ("fldlock", .formatting), ("fldpriv", .formatting), ("fldrslt", .formatting),
   ("fmodern", .formatting), ("fnil", .formatting), ("fonttbl", .formatting), ("footer", .formatting),
   ("footerf", .formatting), ("footerl", .formatting), ("footerr", .formatting),
   ("footnote", .formatting), ("fprq", .formatting), ("froman", .formatting), ("fs", .formatting),
   ("fscript", .formatting), ("fswiss", .formatting), ("ftech", .formatting),
   ("fttruetype", .formatting), ("green", .formatting), ("header", .formatting),
   ("headerf", .formatting), ("headerl", .formatting), ("headerr", .formatting),
   ("height", .formatting), ("i", .formatting), ("info", .formatting), ("ldblquote", .ldblquote),
   ("li", .formatting), ("linkFilename", .formatting), ("linkMarkername", .formatting),
   ("lquote", .lquote), ("mac", .formatting), ("margb", .formatting), ("margl", .formatting),
   ("margr", .formatting), ("margt", .formatting), ("markername", .formatting), ("paperh", .formatting),
   ("paperw", .formatting), ("par", .paragraph), ("pard", .formatting), ("pc", .formatting),
   ("pca", .formatting), ("pict", .formatting), ("plain", .formatting), ("qc", .formatting),
   ("qj", .formatting), ("ql", .formatting), ("qr", .formatting), ("rdblquote", .rdblquote),
   ("red", .formatting), ("ri", .formatting), ("row", .row), ("rquote", .rquote), ("rtf", .formatting),
   ("s", .formatting), ("sa", .formatting), ("sl", .formatting), ("strike", .formatting),
   ("striked1", .formatting), ("stylesheet", .formatting), ("tab", .tabulator), ("tx", .formatting),
   ("u", .unichar), ("ul", .formatting), ("ulc", .formatting), ("uld", .formatting),
   ("uldash", .formatting), ("uldashd", .formatting), ("uldashdd", .formatting), ("uldb", .formatting),
   ("ulnone", .formatting), ("ulth", .formatting), ("ulthd", .formatting), ("ulthdash", .formatting),
   ("ulthdashd", .formatting), ("ulthdashdd", .formatting), ("ulw", .formatting), ("up", .formatting),
   ("width", .formatting)]

def strcmp : List Nat → List Nat → Ordering
  | [], [] => .eq
  | [], _ :: _ => .lt
  | _ :: _, [] => .gt
  | a :: s, b :: t => if a < b then .lt else if b < a then .gt else strcmp s t

/-- The binary search of `findStringFromKeywordArray`. The fuel bounds its turns: the range between
`min` and `max` loses an entry with each. -/
def findString (string : List Nat) (array : List (String × Keyword)) :
    Nat → Int → Int → Option Keyword
  | 0, _, _ => none
  | fuel + 1, min, max =>
    if min ≤ max then
      let mid := (min + max) / 2
      match array[mid.toNat]? with
      | none => none
      | some (keyword, token) =>
        match strcmp string (ascii keyword) with
        | .eq => some token
        | .gt => findString string array fuel (mid + 1) max
        | .lt => findString string array fuel min (mid - 1)
    else none

def findStringFromKeywordArray (string : List Nat) : Option Keyword :=
  findString string RTFcommands (RTFcommands.length + 1) 0 (RTFcommands.length - 1)

def isalpha (c : Nat) : Bool := (65 ≤ c && c ≤ 90) || (97 ≤ c && c ≤ 122)

def isdigit (c : Nat) : Bool := 48 ≤ c && c ≤ 57

def isupper (c : Nat) : Bool := 65 ≤ c && c ≤ 90

def isxdigit (c : Nat) : Bool := isdigit c || (65 ≤ c && c ≤ 70) || (97 ≤ c && c ≤ 102)

/-- The argument of a command. Nothing is stored for one that is too long. -/
inductive Argument where
  | isEmpty
  | parameter (n : Int)
  | unstored
  deriving DecidableEq, Repr

inductive Token where
  | eof
  | openBrace
  | closeBrace
  | ignore
  | paragraph
  | text (bytes : List Nat)
  /-- `none` is `RTFOtherStatement`. -/
  | command (keyword : Option Keyword) (argument : Argument)
  deriving DecidableEq, Repr

def RTFMaxCmdLength : Nat := 32

def RTFMaxArgumentLength : Nat := 64

/-- `atoi` of a sign or digit and the digits behind it. -/
def atoi (argument : List Nat) : Int :=
  let value (digits : List Nat) : Int := digits.foldl (fun (n : Int) (c : Nat) => n * 10 + (c - 48)) 0
  match argument with
  | 45 :: digits => - value digits
  | digits => value digits

/-- The argument of `readCommand`, from the first character behind the name on. -/
def readArgument (input : List Nat) : Argument × List Nat :=
  match input with
  | [] => (.isEmpty, [])
  | c :: rest =>
    if c = 32 then (.isEmpty, rest)
    else if isdigit c || c == 45 then
      let argument := c :: rest.takeWhile isdigit
      let left := rest.dropWhile isdigit
      if argument.length ≥ RTFMaxArgumentLength then (.unstored, left)
      else
        match left with
        | 32 :: left => (.parameter (atoi argument), left)
        | left => (.parameter (atoi argument), left)
    else (.isEmpty, c :: rest)

/-- `readCommand`, behind the backslash. A name that is too long is an error, which leaves the token
at 0. -/
def readCommand (input : List Nat) : Option (Option Keyword × Argument × List Nat) :=
  let cmdName := input.takeWhile isalpha
  if cmdName.length ≥ RTFMaxCmdLength then none
  else
    let (argument, left) := readArgument (input.dropWhile isalpha)
    some (findStringFromKeywordArray cmdName, argument, left)

/-- An open or a closed brace or a backslash. -/
def isSpecial (c : Nat) : Bool := c == 123 || c == 125 || c == 92

def isNewline (c : Nat) : Bool := c == 10 || c == 13

/-- Newline and cr are ignored if not quoted. -/
def readText (input : List Nat) : Token × List Nat :=
  (.text ((input.takeWhile fun c => !isSpecial c).filter fun c => !isNewline c),
    input.dropWhile fun c => !isSpecial c)

def hexValue (c : Nat) : Nat :=
  if isdigit c then c - 48 else if isupper c then c - 55 else c - 87

/-- `gethex`, with the turns that are left and the number read so far. -/
def gethex : Nat → Nat → List Nat → Nat × List Nat
  | turns + 1, n, c :: rest =>
    if isxdigit c then gethex turns (n * 16 + hexValue c) rest else (n, c :: rest)
  | _, n, input => (n, input)

/-- The character that a command stands for. -/
def Keyword.character : Keyword → Option Nat
  | .tabulator | .cell => some 9
  | .emdash | .endash => some 45
  | .bullet => some 42
  | .lquote => some 96
  | .rquote => some 39
  | .ldblquote | .rdblquote => some 34
  | _ => none

/-- `GSRTFlex` behind a backslash that no command follows. -/
def readQuoted (input : List Nat) : Token × List Nat :=
  match input with
  | [] => (.eof, [])
  | c :: rest =>
    if c = 39 then
      let (c, rest) := gethex 2 0 rest
      readText (c :: rest)
    else if c = 42 then (.ignore, rest)
    else if c = 124 ∨ c = 45 ∨ c = 58 then readText rest
    else if c = 95 then readText (45 :: rest)
    else if c = 126 then readText (32 :: rest)
    else if isNewline c then (.paragraph, rest)
    else if isSpecial c then (.text [c], rest)
    else readText (c :: rest)

def GSRTFlex (input : List Nat) : Token × List Nat :=
  match input.dropWhile isNewline with
  | [] => (.eof, [])
  | c :: rest =>
    if c = 123 then (.openBrace, rest)
    else if c = 125 then (.closeBrace, rest)
    else if c = 92 then
      match rest with
      | [] => readQuoted []
      | d :: _ =>
        if isalpha d then
          match readCommand rest with
          | none => (.eof, [])
          | some (keyword, argument, left) =>
            match keyword.bind Keyword.character with
            | some c => readText (c :: left)
            | none => (.command keyword argument, left)
        else readQuoted rest
    else readText (c :: rest)

end GnustepGui.RTF
