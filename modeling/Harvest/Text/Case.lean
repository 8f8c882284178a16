/-!
# Letter case

Small letters for capitals: those of ASCII and of the first two blocks of the Latin, Greek and
Cyrillic scripts. Other characters stand for themselves.
-/

namespace Harvest.Text

/-- Code points in whose range a capital is followed by its small letter. -/
def isCasePair (n : Nat) : Bool :=
  ((0x100 ≤ n && n ≤ 0x12F) || (0x132 ≤ n && n ≤ 0x137) || (0x14A ≤ n && n ≤ 0x177)
    || (0x460 ≤ n && n ≤ 0x481) || (0x48A ≤ n && n ≤ 0x4BF)) && n % 2 == 0
  || ((0x139 ≤ n && n ≤ 0x148) || (0x179 ≤ n && n ≤ 0x17E)) && n % 2 == 1

/-- The small letter of a code point. -/
def lowerPoint (n : Nat) : Nat :=
  if 0x41 ≤ n ∧ n ≤ 0x5A then n + 0x20
  else if 0xC0 ≤ n ∧ n ≤ 0xDE ∧ n ≠ 0xD7 then n + 0x20
  else if isCasePair n then n + 1
  else if n = 0x178 then 0xFF
  else if 0x391 ≤ n ∧ n ≤ 0x3AB ∧ n ≠ 0x3A2 then n + 0x20
  else if 0x410 ≤ n ∧ n ≤ 0x42F then n + 0x20
  else if 0x400 ≤ n ∧ n ≤ 0x40F then n + 0x50
  else if n = 0x1E9E then 0xDF
  else n

/-- A text with small letters for its capitals. -/
def lower (s : String) : String :=
  String.ofList (s.toList.map fun c ↦ Char.ofNat (lowerPoint c.toNat))

end Harvest.Text
