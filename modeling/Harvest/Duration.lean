import Harvest.Arithmetic

/-!
# Durations

Spans of time in whole nanoseconds, at most `2^64` seconds less one nanosecond. Arithmetic
saturates at that bound.
-/

namespace Harvest

/-- A span of time in nanoseconds. -/
structure Duration where
  nanos : Nat
deriving DecidableEq, Repr, Inhabited

namespace Duration

/-- Nanoseconds of a second. -/
def second : Nat := 1000000000

/-- The longest span: `2^64 - 1` seconds and 999999999 nanoseconds. -/
def longest : Duration := ⟨2 ^ 64 * second - 1⟩

/-- A span from seconds and nanoseconds. -/
def mk' (secs nanos : Nat) : Duration := ⟨secs * second + nanos⟩

/-- A span of whole seconds. -/
def ofSecs (secs : Nat) : Duration := mk' secs 0

/-- The whole seconds of a span. -/
def secs (d : Duration) : Nat := d.nanos / second

/-- The nanoseconds beyond the whole seconds of a span. -/
def subsecNanos (d : Duration) : Nat := d.nanos % second

/-- A multiple of a span, at most the longest one. -/
def scale (d : Duration) (factor : Nat) : Duration :=
  ⟨min (d.nanos * factor) longest.nanos⟩

instance : LE Duration := ⟨fun a b ↦ a.nanos ≤ b.nanos⟩

instance (a b : Duration) : Decidable (a ≤ b) := inferInstanceAs (Decidable (a.nanos ≤ b.nanos))

instance : Min Duration := ⟨fun a b ↦ ⟨min a.nanos b.nanos⟩⟩

/-- Durations are ordered by their nanoseconds. -/
theorem le_iff {a b : Duration} : a ≤ b ↔ a.nanos ≤ b.nanos := Iff.rfl

/-- The shorter of two durations has the smaller number of nanoseconds. -/
theorem nanos_min (a b : Duration) : (min a b).nanos = min a.nanos b.nanos := rfl

/-- The digits of a fraction of `width` decimal places, without trailing zeros. -/
def fractionDigits (width fraction : Nat) : List Char :=
  let digits := Nat.toDigits 10 fraction
  let padded := List.replicate (width - digits.length) '0' ++ digits
  (padded.reverse.dropWhile (· == '0')).reverse

/-- A number of units with its fraction, in the unit of the given number of nanoseconds. -/
private def inUnit (nanos unit width : Nat) (suffix : String) : String :=
  let whole := toString (nanos / unit)
  match fractionDigits width (nanos % unit) with
  | [] => whole ++ suffix
  | digits => whole ++ "." ++ String.ofList digits ++ suffix

/-- A span in the largest of seconds, milliseconds, microseconds and nanoseconds that has a whole
part, with the fraction in full. -/
def text (d : Duration) : String :=
  if d.nanos ≥ second then inUnit d.nanos second 9 "s"
  else if d.nanos ≥ 1000000 then inUnit d.nanos 1000000 6 "ms"
  else if d.nanos ≥ 1000 then inUnit d.nanos 1000 3 "µs"
  else inUnit d.nanos 1 0 "ns"

end Duration

end Harvest
