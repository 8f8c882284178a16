import Harvest.Arithmetic

/-!
# Numbers in text

A whole number of 64 bits as people write it: decimal digits, with or without a plus sign.
-/

namespace Harvest.Text

/-- The value of decimal digits. -/
def digitsValue (digits : List Char) : Nat :=
  digits.foldl (fun n c ↦ n * 10 + (c.toNat - '0'.toNat)) 0

/-- Read one or more decimal digits. -/
def readDigits (cs : List Char) : Option Nat :=
  if cs ≠ [] && cs.all Char.isDigit then
    let n := digitsValue cs
    if n < 2 ^ 64 then some n else none
  else none

/-- Read a whole number from 0 to `2 ^ 64 - 1`. -/
def readNatural : List Char → Option Nat
  | '+' :: cs => readDigits cs
  | cs => readDigits cs

end Harvest.Text
