import Harvest.Text.Utf8

/-!
# Places where a text can be cut

The bytes of a text can be cut at their ends and before a byte that a character starts with. A text
that is too long is cut at the last such place that leaves it short enough.
-/

namespace Harvest.Text

/-- Whether a byte stands behind the first one of a character. -/
def isInner (b : UInt8) : Bool := 0x80 ≤ b.toNat && b.toNat < 0xC0

/-- Whether bytes can be cut at a place, that is, behind so many of them. -/
def isBoundary (bytes : Bytes) (place : Nat) : Bool :=
  place == 0 ||
    match bytes[place]? with
    | some b => !isInner b
    | none => place == bytes.length

/-- The start of a text is a boundary. -/
theorem isBoundary_zero (bytes : Bytes) : isBoundary bytes 0 = true := rfl

/-- The last place up to a given one where bytes can be cut, looked for downwards. -/
def lastBoundary (bytes : Bytes) (place : Nat) : Nat :=
  if h : isBoundary bytes place = true then place else lastBoundary bytes (place - 1)
termination_by place
decreasing_by
  -- the search does not come below 0, since bytes can be cut there
  have hpos : place ≠ 0 := by
    rintro rfl
    exact h (isBoundary_zero bytes)
  omega

/-- The beginning of a text that takes as many bytes as a limit allows for. -/
def beginning (limit : Nat) (cs : List Char) : List Char :=
  let bytes := encode cs
  decodeLossy (bytes.take (lastBoundary bytes (min bytes.length limit)))

end Harvest.Text
