import Harvest.Arithmetic
import Harvest.Binary64.Basic

/-!
# Shortest decimals

The fewest decimal digits that read back as a given magnitude, and among those the nearest to it.
-/

namespace Harvest.Binary64

/-- The decimal number `digits * 10 ^ exponent`. -/
structure Decimal where
  digits : Nat
  exponent : Int
deriving DecidableEq, Repr

/-- A numerator and a denominator of a decimal number. -/
def Decimal.ratio (d : Decimal) : Nat × Nat :=
  if 0 ≤ d.exponent then (d.digits * 10 ^ d.exponent.toNat, 1)
  else (d.digits, 10 ^ (-d.exponent).toNat)

/-- A decimal number reads back as a magnitude when the magnitude is the nearest one to it. -/
def Decimal.readsAs (d : Decimal) (x : Binary64) : Bool :=
  round d.ratio.1 d.ratio.2 == x

/-- The distance between a decimal number and a magnitude, over the denominator of the decimal
times the unit. -/
private def distance (d : Decimal) (x : Binary64) : Nat :=
  let (num, den) := d.ratio
  let a := num * unit
  let b := x.scaled * den
  (a - b) + (b - a)

/-- The number of decimal digits before the point, at most 0 for a magnitude below 1. -/
def magnitude (x : Binary64) : Int :=
  ((Nat.toDigits 10 (x.scaled * 10 ^ 400 / unit)).length : Int) - 400

/-- The decimal with `n` digits that reads back as a magnitude and is nearest to it, if one reads
back at all: it is one of the two neighbours of the magnitude. -/
def withDigits (x : Binary64) (n : Nat) : Option Decimal :=
  let exponent := x.magnitude - n
  let (num, den) :=
    if 0 ≤ exponent then (x.scaled, unit * 10 ^ exponent.toNat)
    else (x.scaled * 10 ^ (-exponent).toNat, unit)
  let below : Decimal := ⟨num / den, exponent⟩
  let above : Decimal :=
    if num / den + 1 = 10 ^ n then ⟨1, exponent + n⟩ else ⟨num / den + 1, exponent⟩
  match below.readsAs x, above.readsAs x with
  | true, false => some below
  | false, true => some above
  | false, false => none
  | true, true =>
    let down := distance below x
    let up := distance above x
    some (if down < up ∨ (down = up ∧ below.digits % 2 = 0) then below else above)

/-- The shortest decimal that reads back as a magnitude; seventeen digits always do. -/
def shortest (x : Binary64) : Decimal :=
  ((List.range 17).findSome? fun n ↦ x.withDigits (n + 1)).getD ⟨0, 0⟩

/-- The text of a magnitude: positional where the decimal point falls within sixteen digits or
fewer than five zeros follow it, else with an exponent. -/
def text (x : Binary64) : String :=
  if x.mantissa = 0 then "0.0"
  else
    let d := x.shortest
    let digits := Nat.toDigits 10 d.digits
    let size := digits.length
    let point : Int := size + d.exponent
    let zeros (n : Int) : List Char := List.replicate n.toNat '0'
    String.ofList <|
      if 0 ≤ d.exponent ∧ point ≤ 16 then digits ++ zeros d.exponent ++ ['.', '0']
      else if 0 < point ∧ point ≤ 16 then
        digits.take point.toNat ++ '.' :: digits.drop point.toNat
      else if -5 < point ∧ point ≤ 0 then '0' :: '.' :: (zeros (-point) ++ digits)
      else
        let exponent := (toString (point - 1)).toList
        match digits with
        | [d] => d :: 'e' :: exponent
        | d :: ds => d :: '.' :: ds ++ 'e' :: exponent
        | [] => []

end Harvest.Binary64
