import Harvest.Url.Basic

/-!
# Punycode

A label with characters beyond ASCII in the letters, digits and hyphens that domain names allow:
its ASCII characters, a hyphen, and the other characters as insertions in the order of their code
points. Each insertion is a number in a mixed base whose thresholds adapt to the numbers before it.
-/

namespace Harvest.Url.Punycode

/-- Scale down a number until it is at most 455, counting the steps. -/
def scaleDown (delta : Nat) : Nat × Nat :=
  if 455 < delta then
    let (rest, steps) := scaleDown (delta / 35)
    (rest, steps + 1)
  else (delta, 0)
termination_by delta

/-- The bias for the next number after one that was written as the given insertion. -/
def adapt (delta points : Nat) (first : Bool) : Nat :=
  let delta := if first then delta / 700 else delta / 2
  let (rest, steps) := scaleDown (delta + delta / points)
  36 * steps + 36 * rest / (rest + 38)

/-- The threshold of a digit at the given position, counted in steps of 36. -/
def threshold (position bias : Nat) : Nat :=
  max 1 (min 26 (position - bias))

/-- The character of a digit below 36. -/
def digitChar (d : Nat) : Char :=
  if d < 26 then Char.ofNat (0x61 + d) else Char.ofNat (0x30 + (d - 26))

/-- The value of a digit. -/
def digitValue? (c : Char) : Option Nat :=
  let n := c.toNat
  if 0x61 ≤ n ∧ n ≤ 0x7A then some (n - 0x61)
  else if 0x41 ≤ n ∧ n ≤ 0x5A then some (n - 0x41)
  else if 0x30 ≤ n ∧ n ≤ 0x39 then some (n - 0x30 + 26)
  else none

/-- Write a number in the mixed base, from the given position on. -/
def writeNumber (q position bias : Nat) : Chars :=
  let t := threshold position bias
  if h : q < t then [digitChar q]
  else
    have : (q - t) / (36 - t) < q := by
      have h1 : 1 ≤ t := Nat.le_max_left ..
      exact Nat.lt_of_le_of_lt (Nat.div_le_self ..) (by omega)
    digitChar (t + (q - t) % (36 - t)) :: writeNumber ((q - t) / (36 - t)) (position + 36) bias
termination_by q

/-- What an encoder has written and where it stands. -/
private structure Encoder where
  output : Chars
  next : Nat
  delta : Nat
  bias : Nat
  written : Nat

/-- Pass one character of the label while the insertions of code point `point` are written. -/
private def Encoder.pass (basic point : Nat) (s : Encoder) (c : Nat) : Encoder :=
  if c < point then { s with delta := s.delta + 1 }
  else if c = point then
    { s with
      output := s.output ++ writeNumber s.delta 36 s.bias
      bias := adapt s.delta (s.written + 1) (s.written == basic)
      delta := 0
      written := s.written + 1 }
  else s

/-- Write the insertions of one code point. -/
private def Encoder.insert (basic : Nat) (label : List Nat) (s : Encoder) (point : Nat) : Encoder :=
  let start := { s with delta := s.delta + (point - s.next) * (s.written + 1) }
  let done := label.foldl (Encoder.pass basic point) start
  { done with delta := done.delta + 1, next := point + 1 }

/-- Write a label. -/
def encode (label : Chars) : Chars :=
  let ascii := label.filter (·.toNat < 0x80)
  let points := label.map Char.toNat
  let beyond := ((points.filter (0x80 ≤ ·)).mergeSort (· ≤ ·)).eraseDups
  let start : Encoder :=
    { output := ascii ++ (if ascii = [] then [] else ['-'])
      next := 0x80, delta := 0, bias := 72, written := ascii.length }
  (beyond.foldl (Encoder.insert ascii.length points) start).output

/-- What a decoder has read and where it stands in the number that it reads. -/
private structure Decoder where
  output : Chars
  point : Nat
  index : Nat
  bias : Nat
  start : Nat
  weight : Nat
  position : Nat

/-- Read one digit. -/
private def Decoder.read (s : Decoder) (c : Char) : Option Decoder := do
  let d ← digitValue? c
  let index := s.index + d * s.weight
  let t := threshold s.position s.bias
  if d < t then
    let size := s.output.length + 1
    let point := s.point + index / size
    let place := index % size
    if point.isValidChar then
      return {
        output := s.output.take place ++ Char.ofNat point :: s.output.drop place
        point
        index := place + 1
        bias := adapt (index - s.start) size (s.start == 0)
        start := place + 1
        weight := 1
        position := 36 }
    else none
  else return { s with index, weight := s.weight * (36 - t), position := s.position + 36 }

/-- Split a text at its last hyphen. -/
private def splitLastHyphen (cs : Chars) : Chars × Chars :=
  let tail := (cs.reverse.takeWhile (· != '-')).reverse
  (cs.take (cs.length - tail.length - 1), tail)

/-- Read a label. -/
def decode (cs : Chars) : Option Chars := do
  let (ascii, digits) := splitLastHyphen cs
  let start : Decoder :=
    { output := ascii, point := 0x80, index := 0, bias := 72, start := 0, weight := 1,
      position := 36 }
  let done ← digits.foldlM Decoder.read start
  if done.position = 36 then return done.output else none

end Harvest.Url.Punycode
