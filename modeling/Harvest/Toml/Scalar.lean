import Harvest.Arithmetic
import Harvest.Instant.Calendar
import Harvest.Json.Reader
import Harvest.Toml.Text

/-!
# TOML scalars

Numbers, dates and times, and the words among the values. A whole number has 64 bits and a sign. A
float stands for its magnitude, and one that is no number for a magnitude beyond all others. Dates
and times are kept as text under a name of their own, as no setting is one.
-/

namespace Harvest.Toml

open Json (Value Number)

/-- Read digits of a class with single underscores between them. -/
def digitsOf (isDigit : Char → Bool) : List Char → Option (List Char × List Char)
  | [] => none
  | c :: '_' :: d :: rest =>
    if isDigit c then
      if isDigit d then before (some c) (digitsOf isDigit (d :: rest)) else none
    else none
  | c :: rest =>
    if isDigit c then
      match rest with
      | d :: _ => if isDigit d then before (some c) (digitsOf isDigit rest) else some ([c], rest)
      | [] => some ([c], [])
    else none

/-- Read the sign that may stand before a number. -/
def sign : List Char → Bool × List Char
  | '-' :: rest => (true, rest)
  | '+' :: rest => (false, rest)
  | cs => (false, cs)

/-- The value of digits in a base. -/
def digitsValue (base : Nat) (ds : List Char) : Nat :=
  ds.foldl (fun n c ↦ n * base + ((hexNumber [c]).getD 0)) 0

/-- Read decimal digits without needless zeros. -/
def decimalDigits (cs : List Char) : Option (List Char × List Char) := do
  let (ds, rest) ← digitsOf Char.isDigit cs
  match ds with
  | '0' :: _ :: _ => none
  | _ => return (ds, rest)

/-- A whole number of 64 bits with a sign. -/
def wholeNumber (negative : Bool) (n : Nat) : Option Value :=
  if negative && n ≠ 0 then
    if n ≤ 2 ^ 63 then some (.number (.negative n)) else none
  else if n < 2 ^ 63 then some (.number (.nat n)) else none

/-- Whether a character is a digit below the given base. -/
def isDigitOf (base : Nat) (c : Char) : Bool := (hexNumber [c]).any (· < base)

/-- Read a whole number. -/
def integer (cs : List Char) : Option (Value × List Char) := do
  let based (base : Nat) (rest : List Char) : Option (Value × List Char) := do
    let (ds, rest) ← digitsOf (isDigitOf base) rest
    return (← wholeNumber false (digitsValue base ds), rest)
  match cs with
  | '0' :: 'x' :: rest => based 16 rest
  | '0' :: 'o' :: rest => based 8 rest
  | '0' :: 'b' :: rest => based 2 rest
  | _ =>
    let (negative, rest) := sign cs
    let (ds, rest) ← decimalDigits rest
    return (← wholeNumber negative (digitsValue 10 ds), rest)

/-- A magnitude beyond all finite ones. -/
def beyond : Binary64 := ⟨2 ^ 52, 2046⟩

/-- Read the exponent that may follow, with its sign. -/
def exponent? : List Char → Option (Option Int × List Char)
  | c :: rest =>
    if c = 'e' ∨ c = 'E' then do
      let (negative, rest) := sign rest
      let (ds, rest) ← digitsOf Char.isDigit rest
      let n : Int := min (digitsValue 10 ds) Json.greatestExponent
      return (some (if negative then -n else n), rest)
    else some (none, c :: rest)
  | [] => some (none, [])

/-- Read a number with a fraction or an exponent. -/
def float (cs : List Char) : Option (Value × List Char) := do
  let (negative, rest) := sign cs
  let (whole, rest) ← decimalDigits rest
  let (fraction, rest) ← match rest with
    | '.' :: rest => digitsOf Char.isDigit rest
    | _ => some ([], rest)
  let (exponent, rest) ← exponent? rest
  if fraction = [] ∧ exponent.isNone then none
  else
    let n := digitsValue 10 (whole ++ fraction)
    let magnitude := Json.scaled n (exponent.getD 0 - fraction.length)
    return (.number (.float negative (magnitude.getD beyond)), rest)

/-- Read a number that is no number, or beyond all others. -/
def specialFloat (cs : List Char) : Option (Value × List Char) :=
  let (negative, rest) := sign cs
  match rest with
  | 'i' :: 'n' :: 'f' :: rest => some (.number (.float negative beyond), rest)
  | 'n' :: 'a' :: 'n' :: rest => some (.number (.float negative beyond), rest)
  | _ => none

/-! ## Dates and times -/

/-- Read a number of just `width` digits. -/
def fixedDigits (width : Nat) (cs : List Char) : Option (Nat × List Char) :=
  let ds := cs.take width
  if ds.length = width ∧ ds.all Char.isDigit then some (digitsValue 10 ds, cs.drop width)
  else none

/-- Drop a mark. -/
def drop? (c : Char) : List Char → Option (List Char)
  | d :: rest => if d = c then some rest else none
  | [] => none

/-- Read past a date. -/
def pastDate (cs : List Char) : Option (List Char) := do
  let (year, cs) ← fixedDigits 4 cs
  let (month, cs) ← fixedDigits 2 (← drop? '-' cs)
  let (day, cs) ← fixedDigits 2 (← drop? '-' cs)
  if (Date.isValid ⟨year, month, day⟩) then some cs else none

/-- Read past a time of day. -/
def pastTime (cs : List Char) : Option (List Char) := do
  let (hour, cs) ← fixedDigits 2 cs
  let (minute, cs) ← fixedDigits 2 (← drop? ':' cs)
  let (second, cs) ← fixedDigits 2 (← drop? ':' cs)
  if hour ≤ 23 ∧ minute ≤ 59 ∧ second ≤ 60 then
    match cs with
    | '.' :: d :: rest => if d.isDigit then some (rest.dropWhile Char.isDigit) else none
    | _ => some cs
  else none

/-- Read past the offset that may follow a date and time. -/
def pastOffset : List Char → Option (List Char)
  | 'Z' :: rest => some rest
  | 'z' :: rest => some rest
  | c :: rest =>
    if c = '+' ∨ c = '-' then do
      let (hour, cs) ← fixedDigits 2 rest
      let (minute, cs) ← fixedDigits 2 (← drop? ':' cs)
      if hour ≤ 23 ∧ minute ≤ 59 then some cs else none
    else some (c :: rest)
  | [] => some []

/-- Read past a date, a time, or both. -/
def pastDateTime (cs : List Char) : Option (List Char) :=
  match pastDate cs with
  | none => pastTime cs
  | some rest =>
    match rest with
    | c :: after =>
      if c = 'T' ∨ c = 't' then pastTime after >>= pastOffset
      else if c = ' ' then ((pastTime after >>= pastOffset).orElse fun _ ↦ some rest)
      else some rest
    | [] => some []

/-- Read a date or time. -/
def dateTime (cs : List Char) : Option (Value × List Char) := do
  let rest ← pastDateTime cs
  let text := String.ofList (cs.take (cs.length - rest.length))
  return (.object [("datetime", .string text)], rest)

/-- Read a value that is a number, a date or a time. -/
def numeric (cs : List Char) : Option (Value × List Char) :=
  dateTime cs <|> specialFloat cs <|> float cs <|> integer cs

end Harvest.Toml
