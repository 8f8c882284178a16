import Harvest.Arithmetic
import Harvest.Text.Utf8

/-!
# Base64

Three bytes become four characters of six bits each; what is missing at the end is made up with
equals signs.
-/

namespace Harvest.Text.Base64

/-- The character of six bits. -/
def digit (n : Nat) : Char :=
  if n < 26 then Char.ofNat (0x41 + n)
  else if n < 52 then Char.ofNat (0x61 + (n - 26))
  else if n < 62 then Char.ofNat (0x30 + (n - 52))
  else if n = 62 then '+'
  else '/'

/-- The first `count` of the four characters of 24 bits. -/
def digits (n count : Nat) : List Char :=
  ([n / 2 ^ 18, n / 2 ^ 12 % 64, n / 2 ^ 6 % 64, n % 64].map digit).take count

/-- The characters of bytes. -/
def encode : Bytes → List Char
  | [] => []
  | [a] => digits (a.toNat * 65536) 2 ++ ['=', '=']
  | [a, b] => digits (a.toNat * 65536 + b.toNat * 256) 3 ++ ['=']
  | a :: b :: c :: rest =>
    digits (a.toNat * 65536 + b.toNat * 256 + c.toNat) 4 ++ encode rest

end Harvest.Text.Base64
