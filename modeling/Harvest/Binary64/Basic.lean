import Harvest.Arithmetic

/-!
# Binary floating point

Magnitudes of the 64-bit binary format as exact pairs of naturals. `round` gives the value nearest
to a ratio, a tie going to the even mantissa; products and quotients are rounded exact results.
-/

namespace Harvest

/-- The nearest natural number to `num / den`; a half goes to the even neighbour. -/
def roundHalfEven (num den : Nat) : Nat :=
  let q := num / den
  let twice := 2 * (num % den)
  if twice < den ∨ (twice = den ∧ q % 2 = 0) then q else q + 1

/-- The magnitude `mantissa * 2 ^ shift / 2 ^ 1074`. -/
structure Binary64 where
  mantissa : Nat
  shift : Nat
deriving DecidableEq, Repr, Inhabited

namespace Binary64

/-- The unit of the format: every magnitude is a whole number of `1 / unit`. -/
def unit : Nat := 2 ^ 1074

/-- A magnitude as a number of units. -/
def scaled (x : Binary64) : Nat := x.mantissa * 2 ^ x.shift

/-- The magnitude nearest to `num / den`, a tie going to the even mantissa. -/
def round (num den : Nat) : Binary64 :=
  let num := num * unit
  let shift := (num / den).log2 + 1 - 53
  let mantissa := roundHalfEven num (den * 2 ^ shift)
  if mantissa = 2 ^ 53 then ⟨2 ^ 52, shift + 1⟩ else ⟨mantissa, shift⟩

/-- The magnitude nearest to a natural number. -/
def ofNat (n : Nat) : Binary64 := round n 1

/-- Magnitudes beyond the greatest finite one. -/
def isInfinite (x : Binary64) : Bool := x.shift > 2045

/-- The rounded product. -/
def mul (x y : Binary64) : Binary64 := round (x.scaled * y.scaled) (unit * unit)

/-- The rounded quotient. -/
def div (x y : Binary64) : Binary64 := round x.scaled y.scaled

/-- The nearest whole multiple of `1 / 10 ^ places`, a half going to the even neighbour. -/
def decimals (x : Binary64) (places : Nat) : Nat :=
  roundHalfEven (x.scaled * 10 ^ places) unit

end Binary64

end Harvest
