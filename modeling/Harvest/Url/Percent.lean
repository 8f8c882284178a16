import Harvest.Text.Utf8

/-!
# Percent encoding

A character outside a place's safe set is written as the bytes of its UTF-8 form, each as `%` and
two hexadecimal digits. Characters beyond ASCII are never safe.
Design: `SPEC_FULL.md:243–246`.
-/

namespace Harvest.Url

open Text (Bytes)

/-- A set of ASCII characters that are escaped. -/
abbrev EscapeSet := Char → Bool

/-- Whether a character is a control character of ASCII. -/
def isControl (c : Char) : Bool := c.toNat < 0x20 || c.toNat == 0x7F

/-- A set with the characters of a list added to it. -/
def EscapeSet.add (set : EscapeSet) (more : List Char) : EscapeSet :=
  fun c ↦ set c || more.contains c

/-- Escaped in every place. -/
def controlSet : EscapeSet := isControl

/-- Escaped in fragments. -/
def fragmentSet : EscapeSet := controlSet.add [' ', '"', '<', '>', '\x60']

/-- Escaped in queries. -/
def querySet : EscapeSet := controlSet.add [' ', '"', '#', '<', '>']

/-- Escaped in queries of the special schemes. -/
def specialQuerySet : EscapeSet := querySet.add ['\'']

/-- Escaped in paths. -/
def pathSet : EscapeSet := fragmentSet.add ['#', '?', '\x7b', '\x7d']

/-- Escaped in a path segment that is added to a path. -/
def segmentSet : EscapeSet := pathSet.add ['/', '%']

/-- Escaped in a segment that is added to a path of a special scheme. -/
def specialSegmentSet : EscapeSet := segmentSet.add ['\\']

/-- Escaped in user names and passwords. -/
def userinfoSet : EscapeSet :=
  pathSet.add ['/', ':', ';', '=', '@', '[', '\\', ']', '^', '|']

/-- An upper-case hexadecimal digit. -/
def hexDigit (n : Nat) : Char :=
  if n < 10 then Char.ofNat (0x30 + n) else Char.ofNat (0x37 + n)

/-- The value of a hexadecimal digit. -/
def hexValue? (c : Char) : Option Nat :=
  let n := c.toNat
  if 0x30 ≤ n ∧ n ≤ 0x39 then some (n - 0x30)
  else if 0x41 ≤ n ∧ n ≤ 0x46 then some (n - 0x37)
  else if 0x61 ≤ n ∧ n ≤ 0x66 then some (n - 0x57)
  else none

/-- A byte as `%` and two digits. -/
def escapeByte (b : UInt8) : List Char :=
  ['%', hexDigit (b.toNat / 16), hexDigit (b.toNat % 16)]

/-- A character as it stands in a place with the given escape set. -/
def escapeChar (set : EscapeSet) (c : Char) : List Char :=
  if c.toNat < 0x80 && !set c then [c]
  else (String.utf8EncodeChar c).flatMap escapeByte

/-- A text as it stands in a place with the given escape set. -/
def escape (set : EscapeSet) (cs : List Char) : List Char :=
  cs.flatMap (escapeChar set)

/-- The bytes of a text in which `%` and two digits stand for a byte; any other `%` stands for
itself. -/
def unescape : List Char → Bytes
  | [] => []
  | [c] => String.utf8EncodeChar c
  | [c, d] => String.utf8EncodeChar c ++ String.utf8EncodeChar d
  | c :: h :: l :: rest =>
    if c = '%' then
      match hexValue? h, hexValue? l with
      | some high, some low => UInt8.ofNat (high * 16 + low) :: unescape rest
      | _, _ => String.utf8EncodeChar c ++ unescape (h :: l :: rest)
    else String.utf8EncodeChar c ++ unescape (h :: l :: rest)

end Harvest.Url
