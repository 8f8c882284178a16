import Harvest.Arithmetic
import Harvest.Url.Basic
import Harvest.Url.Error
import Harvest.Text.Split

/-!
# IPv4 hosts

A host whose last part is a number is an address of one to four numbers, each decimal, octal (after
`0`) or hexadecimal (after `0x`). Every number but the last is one byte; the last one fills the
bytes that are left.
-/

namespace Harvest.Url

open Text (splitAt)

/-- The value of digits in a base up to sixteen, if all of them are digits of it. -/
def digitsIn (base : Nat) (cs : Chars) : Option Nat :=
  cs.foldlM (fun n c ↦ do
    let d ← hexValue? c
    if d < base then some (n * base + d) else none) 0

/-- A part as a number: `none` if it is not one. A prefix without digits stands for 0. -/
def ipv4Number : Chars → Option Nat
  | [] => none
  | '0' :: 'x' :: ds => digitsIn 16 ds
  | '0' :: 'X' :: ds => digitsIn 16 ds
  | '0' :: d :: ds => digitsIn 8 (d :: ds)
  | ds => digitsIn 10 ds

/-- The parts of a host without the empty one behind a final dot. -/
def hostParts (host : Chars) : List Chars :=
  match (splitAt '.' host).reverse with
  | [] :: parts => parts.reverse
  | parts => parts.reverse

/-- Whether a host ends in a number, and so is an address or nothing. -/
def endsInNumber (host : Chars) : Bool :=
  match (hostParts host).getLast? with
  | none => false
  | some part =>
    (part ≠ [] && part.all Char.isDigit) || (ipv4Number part).isSome

/-- Put the numbers of an address together. -/
def joinIpv4 : List Nat → Option Nat
  | [a] => if a < 256 ^ 4 then some a else none
  | [a, b] => if a < 256 ∧ b < 256 ^ 3 then some (a * 256 ^ 3 + b) else none
  | [a, b, c] =>
    if a < 256 ∧ b < 256 ∧ c < 256 ^ 2 then some (a * 256 ^ 3 + b * 256 ^ 2 + c) else none
  | [a, b, c, d] =>
    if a < 256 ∧ b < 256 ∧ c < 256 ∧ d < 256 then
      some (a * 256 ^ 3 + b * 256 ^ 2 + c * 256 + d)
    else none
  | _ => none

/-- Read a host that ends in a number. -/
def parseIpv4 (host : Chars) : Except Error Nat :=
  match (hostParts host).mapM ipv4Number >>= joinIpv4 with
  | some address => .ok address
  | none => .error .invalidIpv4

end Harvest.Url
