import Harvest.Arithmetic
import Harvest.Instant.Basic
import Harvest.Text.Blank

/-!
# Reading instants

A date, a separator, a time of day and an offset from universal time. Numbers may be short of
their full width, blanks may stand before each of them and before each mark, and the offset is `Z`,
`UTC` or a sign with hours and minutes.
-/

namespace Harvest.Instant

open Text (isBlank)

/-- Why a text is no moment. -/
inductive Error where
  | tooShort
  | invalid
  | outOfRange
  | impossible
  | tooLong
deriving DecidableEq, Repr, Inhabited

/-- The wording of an error. -/
def Error.message : Error → String
  | tooShort => "premature end of input"
  | invalid => "input contains invalid characters"
  | outOfRange => "input is out of range"
  | impossible => "no possible date and time matching input"
  | tooLong => "trailing input"

/-- A reader takes characters from the front of a text. -/
abbrev Reader := StateT (List Char) (Except Error)

/-- Drop characters of a class. -/
def dropping (p : Char → Bool) : Reader Unit := modify (·.dropWhile p)

/-- Take the next character. -/
def anyChar : Reader Char := do
  match ← get with
  | [] => throw .tooShort
  | c :: rest =>
    set rest
    return c

/-- The value of decimal digits. -/
def valueOf (digits : List Char) : Nat :=
  digits.foldl (fun n c ↦ n * 10 + (c.toNat - '0'.toNat)) 0

/-- Read at least one digit and at most `width` of them. -/
def number (width : Nat) : Reader Nat := do
  let cs ← get
  let digits := (cs.take width).takeWhile Char.isDigit
  if cs = [] then throw .tooShort
  else if digits = [] then throw .invalid
  else if 2 ^ 63 ≤ valueOf digits then throw .outOfRange
  else
    set (cs.drop digits.length)
    return valueOf digits

/-- Read a number in a range, behind blanks. -/
def numberIn (low high : Nat) : Reader Nat := do
  dropping isBlank
  let n ← number 2
  if low ≤ n ∧ n ≤ high then return n else throw .outOfRange

/-- Read a mark, behind blanks. -/
def mark (c : Char) : Reader Unit := do
  dropping isBlank
  if (← anyChar) = c then return () else throw .invalid

/-- Read a year: four digits without a sign, or any number of them behind one. -/
def year : Reader Int := do
  dropping isBlank
  let cs ← get
  let n ← match cs with
    | '-' :: rest => do
      set rest
      pure (-((← number rest.length) : Int))
    | '+' :: rest => do
      set rest
      pure ((← number rest.length) : Int)
    | _ => do pure ((← number 4) : Int)
  if -((2 ^ 31 : Nat) : Int) ≤ n ∧ n < (2 ^ 31 : Nat) then return n else throw .outOfRange

/-- Read a date. -/
def date : Reader Date := do
  let year ← year
  mark '-'
  let month ← numberIn 1 12
  mark '-'
  let day ← numberIn 1 31
  return ⟨year, month, day⟩

/-- Read the separator of date and time. -/
def separator : Reader Unit := do
  let c ← anyChar
  if c = 't' ∨ c = 'T' ∨ c = ' ' then return () else throw .invalid

/-- Read the nanoseconds that may follow a point; digits beyond the ninth are dropped. -/
def fraction : Reader Nat := do
  match ← get with
  | '.' :: cs =>
    set cs
    let n ← number 9
    let width := cs.length - (← get).length
    dropping Char.isDigit
    return n * 10 ^ (9 - width)
  | _ => return 0

/-- Read a time of day: the second of the day and the nanoseconds; second 60 is a leap second. -/
def time : Reader (Nat × Nat) := do
  let hour ← numberIn 0 23
  mark ':'
  let minute ← numberIn 0 59
  mark ':'
  let second ← numberIn 0 60
  let nanos ← fraction
  dropping isBlank
  return ((hour * 60 + minute) * 60 + min second 59,
    if second = 60 then nanos + 1000000000 else nanos)

/-- Read a number of just two digits. -/
def twoDigits : Reader Nat := do
  match ← get with
  | a :: b :: rest =>
    if a.isDigit && b.isDigit then
      set rest
      return valueOf [a, b]
    else throw .invalid
  | [c] => throw (if c.toNat < 0x80 then .tooShort else .invalid)
  | [] => throw .tooShort

/-- Read the sign of an offset. -/
def sign : Reader Int := do
  let c ← anyChar
  if c = '+' then return 1
  else if c = '-' ∨ c = '\u2212' then return -1
  else throw .invalid

/-- Read an offset of hours and minutes, in seconds. Colons and blanks may stand between them. -/
def numericOffset : Reader Int := do
  let sign ← sign
  let hours ← twoDigits
  dropping fun c ↦ c == ':' || isBlank c
  let minutes ← twoDigits
  if 60 ≤ minutes then throw .outOfRange
  else return sign * ((hours * 60 + minutes) * 60 : Nat)

/-- Read an offset, in seconds. -/
def offset : Reader Int := do
  let cs ← get
  if (cs.take 3).map Char.toUpper = ['U', 'T', 'C'] then
    set (cs.drop 3)
    return 0
  else
    match cs with
    | 'Z' :: rest =>
      set rest
      return 0
    | 'z' :: rest =>
      set rest
      return 0
    | _ => numericOffset

/-- The moment of a date and time at an offset. -/
def ofLocal (date : Date) (second nanos : Nat) (offset : Int) : Except Error Instant :=
  if !date.isValid || 86400 ≤ offset.natAbs then .error .outOfRange
  else
    let seconds := date.toDays * 86400 + second - offset
    let day := seconds.fdiv 86400
    if (Date.ofDays day).isValid then .ok ⟨day, (seconds - day * 86400).toNat, nanos⟩
    else .error .impossible

/-- Read a moment. -/
def instant : Reader Instant := do
  let date ← date
  separator
  let (second, nanos) ← time
  let offset ← offset
  dropping isBlank
  if (← get) ≠ [] then throw .tooLong
  else ofLocal date second nanos offset

/-- Read a moment from a text. -/
def parse (text : String) : Except Error Instant := (instant.run text.toList).map (·.1)

end Harvest.Instant
