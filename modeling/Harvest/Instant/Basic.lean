import Harvest.Instant.Calendar

/-!
# Instants

Moments of universal time to the nanosecond. A leap second is the second after the last one of a
minute, so its nanoseconds go on from 1000000000.
-/

namespace Harvest

/-- A moment: its day, the second of that day, and the nanoseconds beyond it. -/
structure Instant where
  day : Int
  second : Nat
  nanos : Nat
deriving DecidableEq, Repr, Inhabited

namespace Instant

/-- The order of moments. -/
def notAfter (a b : Instant) : Bool :=
  a.day < b.day || (a.day == b.day && (a.second < b.second
    || (a.second == b.second && a.nanos ≤ b.nanos)))

/-- The nanoseconds since the first day. -/
def total (i : Instant) : Int := (i.day * 86400 + i.second) * 1000000000 + i.nanos

/-- The nanoseconds from one moment to a later one. -/
def nanosUntil (a b : Instant) : Nat := (b.total - a.total).toNat

/-- A number in at least `width` digits. -/
def padded (width n : Nat) : List Char :=
  let digits := Nat.toDigits 10 n
  List.replicate (width - digits.length) '0' ++ digits

/-- A year in four digits, with a sign where that is not enough. -/
def yearChars (year : Int) : List Char :=
  if 0 ≤ year ∧ year ≤ 9999 then padded 4 year.toNat
  else (if year < 0 then '-' else '+') :: padded 4 year.natAbs

/-- The fraction of a second in the fewest of 0, 3, 6 and 9 digits that hold it. -/
def fractionChars (nanos : Nat) : List Char :=
  if nanos = 0 then []
  else if nanos % 1000000 = 0 then '.' :: padded 3 (nanos / 1000000)
  else if nanos % 1000 = 0 then '.' :: padded 6 (nanos / 1000)
  else '.' :: padded 9 nanos

/-- The characters of a moment: date and time of day, with `Z` for universal time. -/
def chars (i : Instant) : List Char :=
  let date := Date.ofDays i.day
  let second := i.second % 60 + i.nanos / 1000000000
  yearChars date.year ++ '-' :: padded 2 date.month ++ '-' :: padded 2 date.day
    ++ 'T' :: padded 2 (i.second / 3600) ++ ':' :: padded 2 (i.second / 60 % 60)
    ++ ':' :: padded 2 second ++ fractionChars (i.nanos % 1000000000) ++ ['Z']

/-- The text of a moment. -/
def text (i : Instant) : String := String.ofList i.chars

end Instant

end Harvest
