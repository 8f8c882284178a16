import Harvest.Url.Ipv4

/-!
# IPv6 hosts

Eight pieces of one to four hexadecimal digits with colons between them. Two colons stand once for
one or more zero pieces, and the last two pieces may be written as an IPv4 address.
-/

namespace Harvest.Url

open Text (splitAt)

/-- A piece of one to four hexadecimal digits. -/
def ipv6Piece (cs : Chars) : Option Nat :=
  if 1 ≤ cs.length ∧ cs.length ≤ 4 then digitsIn 16 cs else none

/-- A byte in decimal without leading zeros. -/
def decimalByte (cs : Chars) : Option Nat :=
  match cs with
  | [] => none
  | '0' :: _ :: _ => none
  | ds => (digitsIn 10 ds).filter (· < 256)

/-- The two pieces of an IPv4 address of four bytes. -/
def embeddedIpv4 (cs : Chars) : Option (List Nat) :=
  match (splitAt '.' cs).mapM decimalByte with
  | some [a, b, c, d] => some [a * 256 + b, c * 256 + d]
  | _ => none

/-- The pieces of a list of texts; only the last one may be an IPv4 address. -/
def ipv6Pieces (ipv4 : Bool) : List Chars → Option (List Nat)
  | [] => some []
  | [cs] =>
    if ipv4 && cs.contains '.' then embeddedIpv4 cs else (ipv6Piece cs).map ([·])
  | cs :: rest => do
    let piece ← ipv6Piece cs
    let pieces ← ipv6Pieces ipv4 rest
    return piece :: pieces

/-- The pieces of a text with single colons; an empty text has none. -/
def colonPieces (ipv4 : Bool) (cs : Chars) : Option (List Nat) :=
  if cs = [] then some [] else ipv6Pieces ipv4 (splitAt ':' cs)

/-- Split a text at the first two colons in a row. -/
def splitCompressed : Chars → Option (Chars × Chars)
  | ':' :: ':' :: rest => some ([], rest)
  | c :: cs => (splitCompressed cs).map fun (before, after) ↦ (c :: before, after)
  | [] => none

/-- The eight pieces of an address. -/
def ipv6Address (cs : Chars) : Option (List Nat) :=
  match splitCompressed cs with
  | none => (colonPieces true cs).filter (·.length = 8)
  | some (before, after) => do
    let left ← colonPieces false before
    let right ← colonPieces true after
    let used := left.length + right.length
    if used ≤ 7 then return left ++ List.replicate (8 - used) 0 ++ right else none

/-- Read the text between the brackets of a host. -/
def parseIpv6 (cs : Chars) : Except Error (List Nat) :=
  match ipv6Address cs with
  | some pieces => .ok pieces
  | none => .error .invalidIpv6

end Harvest.Url
