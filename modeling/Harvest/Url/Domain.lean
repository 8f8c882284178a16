import Harvest.Url.Error
import Harvest.Url.Punycode
import Harvest.Text.Case
import Harvest.Text.Split

/-!
# Domain names

The ASCII form of a domain name: characters are folded to lower case and to their plain forms, and
each label that keeps a character beyond ASCII is written in Punycode after `xn--`. The folding
covers the Latin, Greek and Cyrillic capitals of the first two blocks of each script, and the
full-width forms; other characters stand for themselves.
-/

namespace Harvest.Url.Domain

/-- ASCII characters that no domain name holds. -/
def isForbidden (c : Char) : Bool :=
  c.toNat ≤ 0x20 || c.toNat == 0x7F
    || ['%', '#', '/', ':', '<', '>', '?', '@', '[', '\\', ']', '^', '|'].contains c

/-- Characters that leave no trace in a name. -/
def isIgnored (n : Nat) : Bool :=
  n == 0xAD || n == 0x200B || n == 0x2060 || n == 0xFEFF || (0xFE00 ≤ n && n ≤ 0xFE0F)

/-- Full stops of other scripts. -/
def isFullStop (n : Nat) : Bool := n == 0x3002 || n == 0xFF0E || n == 0xFF61

/-- The code point that a full-width form stands for. -/
def narrow (n : Nat) : Nat :=
  if 0xFF01 ≤ n ∧ n ≤ 0xFF5E then n - 0xFEE0 else n

/-- Control and space characters beyond ASCII. -/
def isUnassignable (n : Nat) : Bool :=
  (0x80 ≤ n && n ≤ 0xA0) || n == 0x1680 || (0x2000 ≤ n && n ≤ 0x200A) || n == 0x2028
    || n == 0x2029 || n == 0x202F || n == 0x205F || n == 0x3000 || n == 0xFFFD
    || (0xE000 ≤ n && n ≤ 0xF8FF) || 0xF0000 ≤ n

/-- The characters that one character of a name stands for. -/
def fold (c : Char) : Chars :=
  let n := c.toNat
  if isIgnored n then []
  else if isFullStop n then ['.']
  else [Char.ofNat (Text.lowerPoint (narrow n))]

/-- Whether a character may stand in a folded name. -/
def isAllowed (c : Char) : Bool :=
  if c.toNat < 0x80 then !isForbidden c else !isUnassignable c.toNat

/-- The mark of a label in Punycode. -/
def mark : Chars := "xn--".toList

/-- The ASCII form of a folded label; a label that is in Punycode already has to stand for
something that folding leaves alone and that needs Punycode. -/
def asciiLabel (label : Chars) : Option Chars :=
  if label.all (·.toNat < 0x80) then
    if mark.isPrefixOf label then do
      let decoded ← Punycode.decode (label.drop 4)
      if decoded.all (·.toNat < 0x80) || decoded.flatMap fold != decoded
          || !decoded.all isAllowed then none
      else return label
    else some label
  else some (mark ++ Punycode.encode label)

/-- The ASCII form of a name. -/
def toAscii (name : Chars) : Option Chars := do
  let folded := name.flatMap fold
  if folded.all isAllowed then
    return Text.joinWith ['.'] (← (Text.splitAt '.' folded).mapM asciiLabel)
  else none

end Harvest.Url.Domain
