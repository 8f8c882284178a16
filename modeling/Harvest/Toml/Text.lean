/-!
# TOML text

The parts of a TOML document that hold characters: blanks, comments, strings and keys. Strings are
read by recursion on the text, from behind their first quotes.
-/

namespace Harvest.Toml

/-- A reader takes characters from the front of a text, or fails. -/
abbrev Reader := StateT (List Char) Option

/-- Whether a character is blank within a line. -/
def isSpace (c : Char) : Bool := c == ' ' || c == '\t'

/-- Whether a character may stand in a comment or string. -/
def isPlain (c : Char) : Bool := c == '\t' || (0x20 ≤ c.toNat && c.toNat ≠ 0x7F)

/-- Skip blanks within a line. -/
def spaces : Reader Unit := modify (·.dropWhile isSpace)

/-- The rest of a text behind a line break at its start. -/
def afterBreak? : List Char → Option (List Char)
  | '\n' :: rest => some rest
  | '\r' :: '\n' :: rest => some rest
  | _ => none

/-- Take a character if it comes next. -/
def accept (c : Char) : Reader Bool := do
  match ← get with
  | d :: rest =>
    if d = c then
      set rest
      return true
    else return false
  | [] => return false

/-- Take a character that has to come next. -/
def expect (c : Char) : Reader Unit := do
  if ← accept c then return () else failure

/-- Take a text that has to come next. -/
def expectAll (cs : List Char) : Reader Unit := cs.forM expect

/-- Skip a comment, if there is one. -/
def comment : Reader Unit := do
  if ← accept '#' then modify (·.dropWhile isPlain)

/-- Skip blanks, comments and line breaks; each round skips at least a line break. -/
def blankLines : Nat → Reader Unit
  | 0 => pure ()
  | rounds + 1 => do
    spaces
    comment
    match afterBreak? (← get) with
    | some rest =>
      set rest
      blankLines rounds
    | none => pure ()

/-- Skip blanks, comments and line breaks. -/
def filler : Reader Unit := do blankLines ((← get).length + 1)

/-! ## Strings -/

/-- The value of hexadecimal digits. -/
def hexNumber (cs : List Char) : Option Nat :=
  cs.foldlM (fun n c ↦
    if c.isDigit then some (n * 16 + (c.toNat - 0x30))
    else if 'a' ≤ c ∧ c ≤ 'f' then some (n * 16 + (c.toNat - 0x57))
    else if 'A' ≤ c ∧ c ≤ 'F' then some (n * 16 + (c.toNat - 0x37))
    else none) 0

/-- The character of a code point in hexadecimal digits. -/
def codePoint (cs : List Char) : Option Char := do
  let n ← hexNumber cs
  if n.isValidChar then some (Char.ofNat n) else none

/-- The character that an escape of one character stands for. -/
def escaped? (c : Char) : Option Char :=
  [('b', '\x08'), ('t', '\t'), ('n', '\n'), ('f', '\x0c'), ('r', '\r'), ('"', '"'),
    ('\\', '\\')].lookup c

/-- Put a character before what is read behind it. -/
def before (c : Option Char) (read : Option (List Char × List Char)) :
    Option (List Char × List Char) := do
  let c ← c
  let (cs, rest) ← read
  return (c :: cs, rest)

/-- Read a string with escapes on one line. -/
def basicString : List Char → Option (List Char × List Char)
  | [] => none
  | '"' :: rest => some ([], rest)
  | '\\' :: 'u' :: a :: b :: c :: d :: rest => before (codePoint [a, b, c, d]) (basicString rest)
  | '\\' :: 'U' :: a :: b :: c :: d :: e :: f :: g :: h :: rest =>
    before (codePoint [a, b, c, d, e, f, g, h]) (basicString rest)
  | '\\' :: c :: rest => before (escaped? c) (basicString rest)
  | c :: rest => if isPlain c then before (some c) (basicString rest) else none

/-- Read a string without escapes on one line. -/
def literalString : List Char → Option (List Char × List Char)
  | [] => none
  | '\'' :: rest => some ([], rest)
  | c :: rest => if isPlain c then before (some c) (literalString rest) else none

/-- Read a string with escapes on several lines. Up to two quotes may stand before the last three.
A backslash at the end of a line joins it to the next text; `joining` holds while blanks behind one
are skipped. -/
def multiLineString (joining : Bool) : List Char → Option (List Char × List Char)
  | [] => none
  | '"' :: '"' :: '"' :: '"' :: '"' :: rest => some (['"', '"'], rest)
  | '"' :: '"' :: '"' :: '"' :: rest => some (['"'], rest)
  | '"' :: '"' :: '"' :: rest => some ([], rest)
  | '\r' :: '\n' :: rest =>
    if joining then multiLineString true rest
    else before (some '\n') (multiLineString false rest)
  | '\\' :: 'u' :: a :: b :: c :: d :: rest =>
    before (codePoint [a, b, c, d]) (multiLineString false rest)
  | '\\' :: 'U' :: a :: b :: c :: d :: e :: f :: g :: h :: rest =>
    before (codePoint [a, b, c, d, e, f, g, h]) (multiLineString false rest)
  | '\\' :: c :: rest =>
    if (afterBreak? ((c :: rest).dropWhile isSpace)).isSome then multiLineString true (c :: rest)
    else before (escaped? c) (multiLineString false rest)
  | c :: rest =>
    if joining && (isSpace c || c == '\n') then multiLineString true rest
    else if isPlain c || c == '\n' then before (some c) (multiLineString false rest)
    else none

/-- Read a string without escapes on several lines. -/
def multiLineLiteral : List Char → Option (List Char × List Char)
  | [] => none
  | '\'' :: '\'' :: '\'' :: '\'' :: '\'' :: rest => some (['\'', '\''], rest)
  | '\'' :: '\'' :: '\'' :: '\'' :: rest => some (['\''], rest)
  | '\'' :: '\'' :: '\'' :: rest => some ([], rest)
  | '\r' :: '\n' :: rest => before (some '\n') (multiLineLiteral rest)
  | c :: rest => if isPlain c || c == '\n' then before (some c) (multiLineLiteral rest) else none

/-- A text without the line break at its start. -/
def dropBreak (cs : List Char) : List Char := (afterBreak? cs).getD cs

/-- Read a string on one line. -/
def lineString : Reader String := do
  let read : Option (List Char × List Char) := match ← get with
    | '"' :: rest => basicString rest
    | '\'' :: rest => literalString rest
    | _ => none
  let (cs, rest) ← read
  set rest
  return String.ofList cs

/-- Read a string. -/
def string : Reader String := do
  let read : Option (List Char × List Char) := match ← get with
    | '"' :: '"' :: '"' :: rest => multiLineString false (dropBreak rest)
    | '\'' :: '\'' :: '\'' :: rest => multiLineLiteral (dropBreak rest)
    | cs => (lineString.run cs).map fun (s, rest) ↦ (s.toList, rest)
  let (cs, rest) ← read
  set rest
  return String.ofList cs

/-! ## Keys -/

/-- Whether a character may stand in a bare key. -/
def isBare (c : Char) : Bool := c.isAlphanum || c == '-' || c == '_'

/-- Read one part of a key. -/
def simpleKey : Reader String := do
  let cs ← get
  match cs.takeWhile isBare with
  | [] => lineString
  | key =>
    set (cs.dropWhile isBare)
    return String.ofList key

/-- Read the parts of a key; each round reads at least one character. -/
def keyParts : Nat → Reader (List String)
  | 0 => failure
  | rounds + 1 => do
    spaces
    let part ← simpleKey
    spaces
    if ← accept '.' then return part :: (← keyParts rounds) else return [part]

/-- Read a key: its parts have dots between them. -/
def key : Reader (List String) := do keyParts ((← get).length + 1)

end Harvest.Toml
