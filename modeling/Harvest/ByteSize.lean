import Harvest.Arithmetic
import Harvest.Binary64.Basic

/-!
# Byte sizes

A number of bytes in the largest binary unit that leaves it below 1024, with two decimals. The
division is by powers of two, so only the first step, from the number to its binary64 value, and
the last one, to two decimals, round.
-/

namespace Harvest.ByteSize

/-- The units above the byte, each 1024 times the one before. -/
def units : List String := ["KiB", "MiB", "GiB", "TiB", "PiB", "EiB"]

/-- Two decimals of `bytes / 1024 ^ step`, where `bytes` is a whole binary64 value. -/
def hundredths (bytes step : Nat) : Nat :=
  roundHalfEven (bytes * 100) (1024 ^ step)

/-- A number of hundredths with two decimals. -/
def twoPlaces (n : Nat) : String :=
  s!"{n / 100}.{n % 100 / 10}{n % 10}"

/-- The unit in which a number of bytes is below 1024, counted from `step`. -/
def inUnits (bytes : Nat) : Nat → List String → String
  | step, [unit] => twoPlaces (hundredths bytes step) ++ " " ++ unit
  | step, unit :: rest =>
    if bytes < 1024 ^ (step + 1) then twoPlaces (hundredths bytes step) ++ " " ++ unit
    else inUnits bytes (step + 1) rest
  | _, [] => ""

/-- The text of a number of bytes. -/
def text (n : Nat) : String :=
  if n < 1024 then s!"{n} B"
  else inUnits ((Binary64.ofNat n).scaled / Binary64.unit) 1 units

end Harvest.ByteSize
