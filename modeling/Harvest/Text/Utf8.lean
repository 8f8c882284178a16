/-!
# UTF-8

Characters as bytes and back. `decodeLossy` never fails: each longest beginning of a character that
no byte completes becomes one replacement character. `decode` accepts only well-formed bytes.
-/

namespace Harvest.Text

/-- Bytes of a reply body, a file or a text on the wire. -/
abbrev Bytes := List UInt8

/-- The replacement character U+FFFD. -/
def replacement : Char := '\uFFFD'

/-- The bytes of a list of characters. -/
def encode (cs : List Char) : Bytes :=
  cs.flatMap String.utf8EncodeChar

/-- The bytes of a text. -/
def bytesOf (s : String) : Bytes :=
  encode s.toList

/-- What a first byte announces: its own bits of the code point, how many bytes follow it, and the
range of the first of them. -/
structure Lead where
  bits : Nat
  more : Nat
  low : Nat
  high : Nat

/-- Read a first byte; `none` where no character starts with it. -/
def lead? (b : Nat) : Option Lead :=
  if b < 0x80 then some ⟨b, 0, 0x80, 0xBF⟩
  else if b < 0xC2 then none
  else if b < 0xE0 then some ⟨b - 0xC0, 1, 0x80, 0xBF⟩
  else if b = 0xE0 then some ⟨0, 2, 0xA0, 0xBF⟩
  else if b = 0xED then some ⟨0xD, 2, 0x80, 0x9F⟩
  else if b < 0xF0 then some ⟨b - 0xE0, 2, 0x80, 0xBF⟩
  else if b = 0xF0 then some ⟨0, 3, 0x90, 0xBF⟩
  else if b < 0xF4 then some ⟨b - 0xF0, 3, 0x80, 0xBF⟩
  else if b = 0xF4 then some ⟨4, 3, 0x80, 0x8F⟩
  else none

/-- Read the bytes that follow a first byte, as far as they fit, and return what is left. -/
def readTail (more low high bits : Nat) (bytes : Bytes) : Option Nat × Bytes :=
  match more, bytes with
  | 0, rest => (some bits, rest)
  | _ + 1, [] => (none, [])
  | more + 1, b :: rest =>
    if low ≤ b.toNat ∧ b.toNat ≤ high then
      readTail more 0x80 0xBF (bits * 64 + (b.toNat - 0x80)) rest
    else (none, b :: rest)

/-- Read one character; `none` for a beginning that is not completed. -/
def readChar (b : UInt8) (rest : Bytes) : Option Char × Bytes :=
  match lead? b.toNat with
  | none => (none, rest)
  | some l =>
    let (code, rest) := readTail l.more l.low l.high l.bits rest
    (code.map Char.ofNat, rest)

private theorem readTail_length_le (more low high bits : Nat) (bytes : Bytes) :
    (readTail more low high bits bytes).2.length ≤ bytes.length := by
  induction bytes generalizing more low high bits with
  | nil => cases more <;> simp [readTail]
  | cons b rest ih =>
    cases more with
    | zero => simp [readTail]
    | succ more =>
      rw [readTail]
      split
      · exact Nat.le_trans (ih ..) (by simp)
      · simp

private theorem readChar_length_le (b : UInt8) (rest : Bytes) :
    (readChar b rest).2.length ≤ rest.length := by
  unfold readChar
  split
  · simp
  · exact readTail_length_le ..

/-- Decode bytes, with a replacement character for each broken beginning. -/
def decodeLossy (bytes : Bytes) : List Char :=
  match bytes with
  | [] => []
  | b :: rest =>
    let read := readChar b rest
    read.1.getD replacement :: decodeLossy read.2
termination_by bytes.length
decreasing_by exact Nat.lt_succ_of_le (readChar_length_le b rest)

/-- Decode well-formed bytes. -/
def decode (bytes : Bytes) : Option (List Char) :=
  match bytes with
  | [] => some []
  | b :: rest =>
    let read := readChar b rest
    match read.1 with
    | none => none
    | some c => (decode read.2).map (c :: ·)
termination_by bytes.length
decreasing_by exact Nat.lt_succ_of_le (readChar_length_le b rest)

/-- The text of bytes, with replacement characters where they are no UTF-8. -/
def textOf (bytes : Bytes) : String :=
  String.ofList (decodeLossy bytes)

end Harvest.Text
